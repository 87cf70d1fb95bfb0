import ShaderGraph.Proofs.Stages

/-! Scopes of locals. In each stage of a material the locals are declared in the order of their
numbers, and wherever a local is named, in an initialiser, in custom code or in an output, it has
been declared before. Names are read off the text, so the texts of custom code must not contain any
of their own. -/

namespace ShaderGraph

/-! ### Names in code -/

/-- The text of a unit of code. -/
def Atom.chars : Atom Local → List Char
  | char c => [c]
  | ref r => (Local.name r).toList

namespace Code

theorem toList_source (c : Code Local) : c.source.toList = c.flatMap Atom.chars := by
  unfold source text
  rw [String.toList_join, List.flatMap_map]
  congr 1
  funext x
  cases x <;> simp [Atom.chars]

theorem toList_source_append (a b : Code Local) :
    (a ++ b : Code Local).source.toList = a.source.toList ++ b.source.toList := by
  simp only [toList_source, List.flatMap_append]

theorem toList_source_ofString (t : String) :
    (ofString t : Code Local).source.toList = t.toList := by
  rw [toList_source, ofString, List.flatMap_map]
  exact List.flatMap_singleton' _

/-- Only a unit that can be part of an identifier begins or ends with an identifier character. -/
theorem isWord_of_mem_chars {x : Atom Local} {c : Char} (hc : c ∈ x.chars)
    (hi : Template.isIdentifierChar c = true) : x.isWord = true := by
  cases x with
  | char d =>
    obtain rfl : c = d := by simpa [Atom.chars] using hc
    exact hi
  | ref r => rfl

theorem chars_ne_nil (x : Atom Local) : x.chars ≠ [] := by
  cases x with
  | char c => simp [Atom.chars]
  | ref r => simp [Atom.chars, Local.name_toList]

theorem chars_of_not_isWord {x : Atom Local} (h : x.isWord = false) :
    ∃ c, x.chars = [c] ∧ Template.isIdentifierChar c = false := by
  cases x with
  | char c => exact ⟨c, rfl, h⟩
  | ref r => cases h

/-- Where code can be put together, so can its text. -/
theorem separated_source {a b : Code Local} (h : a.Separated b) :
    Template.Separated a.source.toList b.source.toList := by
  rw [toList_source, toList_source]
  rcases List.eq_nil_or_concat a with rfl | ⟨a', x, rfl⟩
  · exact Template.separated_of_last (by simp)
  · cases b with
    | nil => exact Template.separated_of_head (by simp)
    | cons y b' =>
      intro c hc d hd hi
      have hx : c ∈ x.chars := by
        rw [List.concat_eq_append, List.flatMap_append, List.getLast?_append] at hc
        cases hl : x.chars.getLast? with
        | none => exact absurd (List.getLast?_eq_none_iff.mp hl) (chars_ne_nil x)
        | some z =>
          obtain rfl : z = c := by simpa [hl] using hc
          exact List.mem_of_getLast? hl
      have hy := h x (by simp) y rfl (isWord_of_mem_chars hx hi)
      obtain ⟨e, he, hword⟩ := chars_of_not_isWord hy
      obtain rfl : e = d := by simpa [he] using hd
      exact hword

end Code

/-- Every name of a local in the text is that of one of the first `n` locals. -/
def Local.Scoped (n : Nat) (text : List Char) : Prop :=
  ∀ name ∈ namesIn text, ∃ k < n, name = (Local.name k).toList

/-- The same code, in which only the first locals are named. -/
def CodeRelation.scoped : CodeRelation Local Local where
  rel n c d := c = d ∧ Local.Scoped n c.source.toList
  effects := True
  names := False
  mono hmn h := by
    refine ⟨h.1, fun name hname => ?_⟩
    obtain ⟨k, hk, rfl⟩ := h.2 name hname
    exact ⟨k, by omega, rfl⟩
  anyText t ht := by
    refine ⟨rfl, fun name hname => ?_⟩
    rw [Code.toList_source_ofString, ht.resolve_right id] at hname
    simp at hname
  append ha hb hsep := by
    refine ⟨by rw [ha.1, hb.1], fun name hname => ?_⟩
    rw [Code.toList_source_append, Local.namesIn_append (Code.separated_source hsep)] at hname
    rcases List.mem_append.mp hname with h | h
    · exact ha.2 name h
    · exact hb.2 name h
  isOperand h := by rw [h.1]

/-- Only the first `n` locals are named in the value. -/
def Value.Scoped (n : Nat) (v : Value Local) : Prop := CodeRelation.scoped.Values n v v

theorem Value.scoped_local (n : Nat) (type : ValueType) :
    Value.Scoped (n + 1) (.expr type [.ref n]) := by
  refine .expr ⟨rfl, fun name hname => ⟨n, Nat.lt_succ_self n, ?_⟩⟩
  rw [Code.toList_source] at hname
  simpa [Atom.chars, Local.namesIn_name] using hname

/-! ### Writers -/

namespace Statement

/-- The local that a statement declares. -/
def declared? : Statement → Option Local
  | declare name _ _ => some name
  | _ => none

/-- The text of a statement in which locals can be named. -/
def code : Statement → List Char
  | declare _ _ init => init.source.toList
  | block body => body.source.toList
  | comment _ => []

/-- The names of locals that a statement is written with, in order. -/
def names : Statement → List (List Char)
  | declare name _ init => name.name.toList :: Local.namesIn init.source.toList
  | block body => Local.namesIn body.source.toList
  | comment text => Local.namesIn text.toList

/-- Every statement ends its line. -/
theorem getLast?_source (s : Statement) : s.source.toList.getLast? = some '\n' := by
  have hend (a b : String) (h : b.toList.getLast? = some '\n') :
      (a ++ b).toList.getLast? = some '\n' := by
    simp [List.getLast?_append, h]
  cases s with
  | declare => exact hend _ ";\n" (by decide)
  | block => exact hend _ "  \x7d\n" (by decide)
  | comment => exact hend _ "\n" (by decide)

theorem source_declare (name : Local) (type : ValueType) (init : Code Local) :
    (declare name type init).source = s!"  {type.name} {name.name} = {init.source};\n" := by
  rw [source]

/-- The text of a statement has the names of the statement and no others. -/
theorem namesIn_source (s : Statement) : Local.namesIn s.source.toList = s.names := by
  cases s with
  | declare name type init =>
    have htype : Local.Free s!"  {type.name} ".toList ∧
        Template.endsApart s!"  {type.name} ".toList = true := by
      rcases type with _ | _ | _ | (_ | _ | _ | _) | _ | _ <;> decide
    have htext : (declare name type init).source.toList = s!"  {type.name} ".toList ++
        (name.name.toList ++ (" = ".toList ++ (init.source.toList ++ ";\n".toList))) := by
      simp [source_declare, Literal.toString_self]
    rw [htext, htype.1.namesIn_append (Template.separated_of_endsApart htype.2 _),
      Local.namesIn_append (Template.separated_of_beginsApart rfl _), Local.namesIn_name,
      Local.namesIn_between _ (by decide) (by decide) (by decide) (by decide)]
    rfl
  | block body =>
    by_cases hl : body.source.toList.getLast? = some '\n'
    · have htext : (block body).source.toList =
          "  \x7b\n".toList ++ (body.source.toList ++ "  \x7d\n".toList) := by
        simp [source, hl, Literal.toString_self]
      rw [htext, Local.namesIn_between _ (by decide) (by decide) (by decide) (by decide)]
      rfl
    · have htext : (block body).source.toList =
          "  \x7b\n".toList ++ (body.source.toList ++ "\n  \x7d\n".toList) := by
        simp [source, hl, Literal.toString_self]
      rw [htext, Local.namesIn_between _ (by decide) (by decide) (by decide) (by decide)]
      rfl
  | comment text =>
    have htext : (comment text).source.toList =
        "  // ".toList ++ (text.toList ++ "\n".toList) := by
      simp [source, Literal.toString_self]
    rw [htext, Local.namesIn_between _ (by decide) (by decide) (by decide) (by decide)]
    rfl

end Statement

namespace Writer

/-- The locals that are declared, in the order of the statements. -/
def declared (w : Writer) : List Local := w.statements.filterMap Statement.declared?

/-- Locals are declared in the order of their numbers, each before it is named. -/
structure WellScoped (w : Writer) : Prop where
  inOrder : w.declared = List.range w.nextLocal
  named : ∀ i st, w.statements[i]? = some st → ∀ name ∈ Local.namesIn st.code,
    ∃ k ∈ declared ⟨w.statements.take i⟩, name = (Local.name k).toList

theorem wellScoped_empty : WellScoped {} := ⟨rfl, by simp⟩

variable {w : Writer} {st : Statement}

theorem declared_push (w : Writer) (st : Statement) :
    (w.push st).declared = w.declared ++ st.declared?.toList := by
  cases st <;> simp [declared, push, Statement.declared?]

theorem nextLocal_push (w : Writer) (st : Statement) :
    (w.push st).nextLocal = w.nextLocal + st.declared?.toList.length := by
  cases st <;> simp [nextLocal, push, Statement.declared?, Statement.isDeclaration]

theorem source_push (w : Writer) (st : Statement) : (w.push st).source = w.source ++ st.source := by
  simp [source, push, String.join_append]

theorem toList_source (w : Writer) :
    w.source.toList = w.statements.flatMap (·.source.toList) := by
  rw [source, String.toList_join, List.flatMap_map]

/-- No name goes on from one statement to the next. -/
theorem namesIn_source (w : Writer) :
    Local.namesIn w.source.toList = w.statements.flatMap Statement.names := by
  rw [toList_source]
  induction w.statements with
  | nil => rfl
  | cons st l ih =>
    have hline : Template.endsApart st.source.toList = true := by
      rw [Template.endsApart, st.getLast?_source]
      decide
    rw [List.flatMap_cons, List.flatMap_cons,
      Local.namesIn_append (Template.separated_of_endsApart hline _), ih, st.namesIn_source]

theorem infix_source (h : st ∈ w.statements) : st.source.toList <:+: w.source.toList := by
  obtain ⟨l₁, l₂, hl⟩ := List.append_of_mem h
  rw [toList_source, hl, List.flatMap_append, List.flatMap_cons]
  exact List.infix_append' _ _ _

/-- A statement is added that declares the next local, if any, and names only earlier ones. -/
theorem WellScoped.push (h : w.WellScoped) (hd : ∀ name ∈ st.declared?, name = w.nextLocal)
    (hn : Local.Scoped w.nextLocal st.code) : (w.push st).WellScoped := by
  constructor
  case inOrder =>
    rw [declared_push, nextLocal_push, h.inOrder]
    cases hst : st.declared? with
    | none => simp
    | some name =>
      obtain rfl := hd name hst
      simp [List.range_succ]
  case named =>
    intro i st' hi name hname
    by_cases hlt : i < w.statements.length
    · rw [Writer.push, List.getElem?_append_left hlt] at hi
      rw [Writer.push, List.take_append_of_le_length (Nat.le_of_lt hlt)]
      exact h.named i st' hi name hname
    · have hlen := (List.getElem?_eq_some_iff.mp hi).1
      simp only [Writer.push, List.length_append, List.length_singleton] at hlen
      obtain rfl : i = w.statements.length := by omega
      obtain rfl : st = st' := by simpa [Writer.push] using hi
      obtain ⟨k, hk, rfl⟩ := hn name hname
      refine ⟨k, ?_, rfl⟩
      rw [Writer.push, List.take_left]
      exact h.inOrder ▸ List.mem_range.mpr hk

end Writer

/-! ### Evaluation -/

/-- The statements are well scoped, and so are all values that are remembered. -/
structure State.Scoped (s : State) : Prop where
  writer : s.writer.WellScoped
  memory : ∀ entry ∈ s.memory, Value.Scoped s.writer.nextLocal entry.2

namespace State

variable {settings : Settings} {s s' : State} {key : BoxKey}

theorem scoped_ofGraph (g : Graph) : (ofGraph g).Scoped :=
  ⟨Writer.wellScoped_empty, by simp [ofGraph]⟩

theorem Scoped.of_sameCode (h : s.Scoped) (hs : s.SameCode s') : s'.Scoped := by
  refine ⟨hs.writer ▸ h.writer, ?_⟩
  rw [hs.memory, hs.writer]
  exact h.memory

theorem Scoped.remembered (h : s.Scoped) {v : Value Local} (hm : s.remembered? key = some v) :
    Value.Scoped s.writer.nextLocal v :=
  h.memory _ (mem_of_remembered? hm)

/-- A statement is written; what is remembered stays well scoped. -/
theorem Scoped.push (h : s.Scoped) {st : Statement}
    (hd : ∀ name ∈ st.declared?, name = s.writer.nextLocal)
    (hn : Local.Scoped s.writer.nextLocal st.code) :
    { s with writer := s.writer.push st }.Scoped := by
  refine ⟨h.writer.push hd hn, fun entry he => (h.memory entry he).mono ?_⟩
  rw [Writer.nextLocal_push]
  omega

theorem remember_writer (s : State) (key : BoxKey) (value : Option (Value Local)) :
    (s.remember key value).writer = s.writer := by
  unfold State.remember
  split <;> rfl

theorem finish_writer (s : State) (key : BoxKey) (v : Value Local) :
    (s.finish key v).writer = s.writer := by
  unfold State.finish
  dsimp only
  split
  · exact remember_writer _ key (some v)
  · rfl

theorem Scoped.remember (h : s.Scoped) {value : Option (Value Local)}
    (hv : ∀ v ∈ value, Value.Scoped s.writer.nextLocal v) : (s.remember key value).Scoped := by
  refine ⟨by rw [remember_writer]; exact h.writer, ?_⟩
  rw [remember_writer]
  exact forall_mem_remember (P := fun p => Value.Scoped s.writer.nextLocal p.2) h.memory hv

theorem Scoped.finish (h : s.Scoped) {v : Value Local} (hv : Value.Scoped s.writer.nextLocal v) :
    (s.finish key v).Scoped := by
  refine ⟨by rw [finish_writer]; exact h.writer, ?_⟩
  rw [finish_writer]
  exact forall_mem_finish (P := fun p => Value.Scoped s.writer.nextLocal p.2) h.memory hv

/-- Requests of a recipe keep the scopes, and what is left of the recipe respects them. -/
theorem Scoped.effect {r r' : Recipe Local (Value Local)} (h : s.Scoped)
    (hr : Recipe.Related CodeRelation.scoped CodeRelation.scoped.Values s.writer.nextLocal r r)
    (he : r.effect? settings key s = some (r', s')) :
    s'.Scoped ∧
      Recipe.Related CodeRelation.scoped CodeRelation.scoped.Values s'.writer.nextLocal r' r' := by
  cases hr with
  | done => cases he
  | operand => cases he
  | @declare _ type init _ next _ hi hn =>
    cases he
    refine ⟨h.push (by simp [Statement.declared?]) hi.2, ?_⟩
    have hnext : (s.writer.declare type init).2.nextLocal = s.writer.nextLocal + 1 :=
      Writer.nextLocal_push _ _
    rw [hnext]
    exact hn _ _ (Value.scoped_local s.writer.nextLocal type)
  | @block _ body _ next _ _ hb hn =>
    cases he
    have hnext : (s.writer.push (.block body)).nextLocal = s.writer.nextLocal :=
      Writer.nextLocal_push _ _
    exact ⟨h.push (by simp [Statement.declared?]) hb.2, by rwa [hnext]⟩
  | @comment _ text next _ hn =>
    cases he
    have hnext : (s.writer.push (.comment text)).nextLocal = s.writer.nextLocal :=
      Writer.nextLocal_push _ _
    split
    · refine ⟨h.push (by simp [Statement.declared?]) ?_, by rwa [hnext]⟩
      simp [Local.Scoped, Statement.code, Local.namesIn, Template.tokens]
    · exact ⟨h, hn⟩
  | @report _ cause _ _ _ hn =>
    cases he
    have hsame := SameCode.report s key cause
    exact ⟨h.of_sameCode hsame, by rwa [hsame.writer]⟩
  | use hn =>
    cases he
    exact ⟨h.of_sameCode ⟨rfl, rfl⟩, hn⟩
  | @sample _ texture _ _ hn =>
    cases he
    have hsame := SameCode.sample s texture
    exact ⟨h.of_sameCode hsame, by rwa [hsame.writer]⟩
  | @remember _ box value _ next _ _ hv hn =>
    cases he
    rw [remember_writer]
    refine ⟨h.remember fun v hmem => ?_, hn⟩
    obtain rfl : value = some v := hmem
    cases hv with
    | some hv => exact hv
  | @claim _ input _ _ _ hn =>
    cases he
    have hsame := SameCode.claim s settings key (key.sibling input)
    exact ⟨h.of_sameCode hsame, by rw [hsame.writer]; exact hn _⟩

end State

/-- The custom code of a node names no locals. -/
def Node.NamesNoLocals (n : Node) : Prop := ∀ text ∈ n.customText?, Local.Free text.toList

instance (n : Node) : Decidable n.NamesNoLocals :=
  inferInstanceAs (Decidable (∀ text ∈ n.customText?, Local.Free text.toList))

/-- A recipe that names only locals it was given or has declared. -/
def Task.Scoped (s : State) : Task → Prop
  | recipe _ r =>
    r.Related CodeRelation.scoped CodeRelation.scoped.Values s.writer.nextLocal r
  | _ => True

section Evaluation

variable {settings : Settings} {g : Graph} {s s' : State} {t : Task} {v : Value Local}

theorem Site.recipe_scoped {site : Site} (h : site.node.NamesNoLocals) (domain : Domain)
    (stage : Stage) (n : Nat) :
    (site.recipe domain stage).Related CodeRelation.scoped CodeRelation.scoped.Values n
      (site.recipe domain stage) :=
  site.recipe_related _ n domain stage (fun _ => trivial) fun text ht => .inl (h text ht)

open State in
/-- Every evaluation keeps the scopes, and gives a value in scope. -/
theorem Runs.scoped (h : Runs settings t s v s') (hg : ∀ node ∈ g.nodes, node.NamesNoLocals)
    (hf : ∀ f ∈ Engine.functions settings.resolver, ∀ node ∈ f.graph.nodes, node.NamesNoLocals)
    (hs : s.Sound settings g) (hl : t.Located s) (hsc : s.Scoped) (ht : t.Scoped s) :
    s'.Scoped ∧ v.Scoped s'.writer.nextLocal := by
  induction h with
  | leaf h =>
    have hsame := h.sameCode
    refine ⟨hsc.of_sameCode hsame, ?_⟩
    cases h with
    | remembered hm => exact hsc.remembered hm
    | done =>
      cases ht with
      | done hv => exact hv
    | _ => exact .zero _
  | unary h _ ih =>
    obtain ⟨hs₁, hl₁⟩ := h.sound hs hl
    cases h with
    | dispatched =>
      obtain ⟨hsc', hv⟩ := ih hs₁ hl₁ (hsc.of_sameCode ⟨rfl, rfl⟩) trivial
      rw [finish_writer]
      exact ⟨hsc'.finish hv, hv⟩
    | plain =>
      have hfree := hs.tree.forall_node hg hf (node?_of_site? hl.2)
      exact ih hs₁ hl₁ hsc (Site.recipe_scoped hfree _ _ _)
    | called _ _ _ hi =>
      have hsc₁ := hsc.of_sameCode (SameCode.instantiate hi)
      obtain ⟨hsc', hv⟩ := ih hs₁ hl₁ (hsc₁.of_sameCode (.withContext _ _)) trivial
      exact ⟨hsc'.of_sameCode (.withContext _ _), hv⟩
    | passed =>
      obtain ⟨hsc', hv⟩ := ih hs₁ hl₁ (hsc.of_sameCode (.withContext _ _)) trivial
      exact ⟨hsc'.of_sameCode (.withContext _ _), hv⟩
    | defaulted => exact ih hs₁ hl₁ hsc (Recipe.Related.operandOrParam _ 1 1)
    | unconnected =>
      cases ht with
      | operand hn => exact ih hs₁ hl₁ hsc (hn _ _ _ (Nat.le_refl _) .none)
    | effect he =>
      obtain ⟨hsc₁, ht₁⟩ := hsc.effect ht he
      exact ih hs₁ hl₁ hsc₁ ht₁
  | binary h hrun _ ih ihn =>
    obtain ⟨hs₁, hl₁⟩ := h.sound_first hs hl
    obtain ⟨hs₂, hl₂⟩ := h.sound_second hl hrun (hrun.sound hs₁ hl₁)
    cases h with
    | connected =>
      obtain ⟨hsc₁, ha⟩ := ih hs₁ hl₁ hsc trivial
      cases ht with
      | operand hn => exact ihn hs₂ hl₂ hsc₁ (hn _ _ _ hrun.grows.nextLocal_le (.some ha))

end Evaluation

/-! ### Materials -/

namespace Generator

variable {settings : Settings} {g : Graph}

/-- Parameters and interpolants keep the scopes, and their values stay in scope. -/
theorem keeps_scoped (hg : ∀ node ∈ g.nodes, node.NamesNoLocals)
    (hf : ∀ f ∈ Engine.functions settings.resolver, ∀ node ∈ f.graph.nodes, node.NamesNoLocals)
    (output : Nat) :
    Keeps settings g output State.Scoped (fun _ v s => v.Scoped s.writer.nextLocal)
      (fun v s => v.Scoped s.writer.nextLocal) where
  stable _ _ _ _ hgrows hv := hv.mono hgrows.nextLocal_le
  stable' _ _ _ hgrows hv := hv.mono hgrows.nextLocal_le
  onParameter p s v s' hs hsc hr :=
    hr.scoped hg hf hs.sound (p.located hs output) hsc (.feed _ _ fun _ => .literal _)
  onInterpolant slot s v s' hslot hs hsc hr := by
    obtain ⟨hvalid, hcur, -⟩ := hs.sound.slots slot hslot
    obtain ⟨hsc', hv⟩ := hr.scoped hg hf (hs.sound.withContext hvalid)
      ⟨hcur, slot.recipe_callFree⟩ (hsc.of_sameCode (State.SameCode.withContext _ _))
      (.feed _ _ fun _ => .zero _)
    exact ⟨hsc'.of_sameCode (State.SameCode.withContext _ _), hv⟩

end Generator

/-- The code of the stage is the text of the statements: it has a line for every declaration, and
the names of locals in it are those of the statements, in their order. -/
structure StageSource.TextOf (stage : StageSource) (w : Writer) : Prop where
  code : stage.code = w.source
  lines : ∀ name type init, .declare name type init ∈ w.statements →
    s!"  {type.name} {Local.name name} = {init.source};\n".toList <:+: stage.code.toList
  names : Local.namesIn stage.code.toList = w.statements.flatMap Statement.names

theorem StageSource.textOf_ofWriter (w : Writer) (outputs : List StageOutput) :
    (ofWriter w outputs).TextOf w where
  code := rfl
  lines name type init h := by
    rw [← Statement.source_declare]
    exact w.infix_source h
  names := w.namesIn_source

/-- The statements of the stage are well scoped, and its outputs name only locals that these
declare. -/
structure StageSource.WellScoped (stage : StageSource) (w : Writer) : Prop where
  text : stage.TextOf w
  statements : w.WellScoped
  outputs : ∀ o ∈ stage.outputs, ∀ name ∈ Local.namesIn o.value.code.source.toList,
    ∃ k ∈ w.declared, name = (Local.name k).toList

theorem Generator.Outputs.forall_mem {V : Parameter → Value Local → State → Prop} {stage : Stage}
    {s : State} {outputs : List StageOutput} (h : Outputs V stage s outputs) :
    ∀ o ∈ outputs, ∃ p, V p o.value s :=
  Eval.forall₂_right (h.imp fun p _ ho => ⟨p, ho.2⟩)

/-- Custom code that is given the vector to the camera, which is a local. -/
def customized : Graph :=
  ⟨[(Node.ofKind 1 .materialOutput []).fed 0 ⟨1, 8⟩,
    (Node.ofKind 2 .customCode [.text "Output0 = Input0 * 2;"]).fed 0 ⟨2, 0⟩,
    .ofKind 3 .cameraVector []]⟩

end ShaderGraph
