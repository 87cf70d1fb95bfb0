import ShaderGraph.Proofs.Attribution
import ShaderGraph.Proofs.Outline
import ShaderGraph.Proofs.Rearrangement

/-! What requests leave behind. A stage begins with an empty memory, but the statements that were
written for earlier requests, the slots that were claimed and the textures that were sampled are
still there when the material is generated. The graphs that were made for calls do no harm, nor do
notes; a material is the same as that of a generator that was asked for nothing if no statements and
no slots are left, and other than that only if all slots are taken anyway. -/

namespace ShaderGraph

open CallTree

/-! ### Evaluations that differ in notes only -/

/-- Evaluations that are the same but for flags and diagnostics. -/
def verbatim (settings : Settings) : Likeness settings settings.slotLimit where
  values := Eq
  inits := Eq
  blocks := Eq
  claims := Eq
  writers := Eq
  slots := Eq
  textures := Eq
  literal _ := rfl
  zero _ := rfl
  cast {v w} target h := by
    subst h
    cases v.cast target with
    | ok v' => exact .inl ⟨v', v', rfl, rfl, rfl⟩
    | error e => exact .inr ⟨e, e, rfl, rfl⟩
  declare type hw hi := by
    subst hw hi
    exact ⟨rfl, rfl⟩
  block hw hb := by rw [hw, hb]
  comment text hw := by rw [hw]
  claim {s u} key input hc hs := by
    change (s.claim settings key input).1 = (u.claim settings key input).1 ∧
      (s.claim settings key input).2.slots = (u.claim settings key input).2.slots
    unfold State.claim
    rw [← hs, hc]
    split
    · exact ⟨rfl, hs⟩
    · split
      · exact ⟨rfl, hs⟩
      · exact ⟨rfl, rfl⟩
  sample {s u} texture h := by
    unfold State.sample
    rw [← h]
    split
    · exact h
    · rfl

theorem Recipe.Alike.self {α : Type} (settings : Settings) (r : Recipe Local α) :
    r.Alike (verbatim settings) Eq r := by
  have hrel (v w : Option (Value Local)) (h : Option.Rel (verbatim settings).values v w) :
      v = w := by
    cases h with
    | none => rfl
    | some h => exact congrArg some h
  have hrefl (v : Option (Value Local)) : Option.Rel (verbatim settings).values v v := by
    cases v with
    | none => exact .none
    | some v => exact .some rfl
  induction r with
  | done a => exact .done rfl
  | operand box next ih => exact .operand fun v w h => hrel v w h ▸ ih v
  | declare type init next ih =>
    refine .declare rfl fun v w h => ?_
    obtain rfl : v = w := h
    exact ih v
  | block body next ih => exact .block rfl ih
  | comment text next ih => exact .comment ih
  | report cause next ih => exact .note (.report cause next) (.report cause next) ih
  | use feature next ih => exact .note (.use feature next) (.use feature next) ih
  | sample texture next ih => exact .sample ih
  | remember box value next ih => exact .remember (hrefl value) ih
  | claim input next ih =>
    refine .claim fun c c' h => ?_
    obtain rfl : c = c' := h
    exact ih c

theorem verbatim_kept (settings : Settings) : (verbatim settings).Kept :=
  fun _ _ => .self settings _

namespace Generator

variable {settings : Settings} {g : Graph} {e e' : Evaluator}

theorem interpolants_verbatim (he : Engine.Follows settings g [] e)
    (he' : Engine.Follows settings g [] e') {s u : State}
    (h : s.AlikePair (verbatim settings) g u) :
    (interpolants e' u.slots u).1 = (interpolants e s.slots s).1 ∧
      (interpolants e s.slots s).2.AlikePair (verbatim settings) g
        (interpolants e' u.slots u).2 := by
  have hslots : List.Forall₂ Eq s.slots u.slots := List.forall₂_eq_eq_eq ▸ h.alike.slots
  refine interpolants_pair_of (fun slot slot' i s' u' hsame hslot hslot' _ _ h' => ?_) hslots h
  subst hsame
  obtain ⟨hvalue, hpair, hgrows, hgrows'⟩ := interpolant_alike (verbatim_kept settings) he he' h'
    hslot hslot' i
  exact ⟨congrArg (StageOutput.mk _) hvalue.symm, hpair, hgrows, hgrows'⟩

theorem lockstep_verbatim (he : Engine.Follows settings g [] e)
    (he' : Engine.Follows settings g [] e') (output : Nat) :
    Lockstep e e' output output fun s u => s.AlikePair (verbatim settings) g u where
  onParameter p s u h := by
    obtain ⟨hvalue, hpair⟩ := parameter_alike (verbatim_kept settings) he he' h output p
    exact ⟨congrArg (StageOutput.mk p.target) hvalue.symm, hpair⟩
  onInterpolants _ _ h := interpolants_verbatim he he' h
  beginStage stage _ _ h := h.beginStage stage
  takeWriter _ _ h := ⟨h.idle.takeWriter, h.idle'.takeWriter, h.alike.write rfl⟩
  writer _ _ h := h.alike.writers.symm

end Generator

/-! ### Textures -/

namespace Recipe

variable {α β ι : Type}

/-- Nothing is sampled before something is written. -/
inductive Guarded : Recipe Local α → Prop
  | done (a : α) : Guarded (.done a)
  | operand {box next} (h : ∀ v, Guarded (next v)) : Guarded (.operand box next)
  | declare (type : ValueType) (init : Code Local) (next : Value Local → Recipe Local α) :
      Guarded (.declare type init next)
  | block (body : Code Local) (next : Recipe Local α) : Guarded (.block body next)
  | comment {text next} (h : Guarded next) : Guarded (.comment text next)
  | report {cause next} (h : Guarded next) : Guarded (.report cause next)
  | use {feature next} (h : Guarded next) : Guarded (.use feature next)
  | remember {box value next} (h : Guarded next) : Guarded (.remember box value next)
  | claim {input next} (h : ∀ c, Guarded (next c)) : Guarded (.claim input next)

theorem Silent.guarded {r : Recipe Local α} (h : r.Silent) : r.Guarded := by
  induction h with
  | done a => exact .done a
  | operand _ ih => exact .operand ih
  | report _ ih => exact .report ih
  | use _ ih => exact .use ih

namespace Guarded

theorem bind {r : Recipe Local α} {f : α → Recipe Local β} (h : r.Guarded)
    (hf : ∀ a, (f a).Guarded) : (r >>= f).Guarded := by
  change (r.bind f).Guarded
  induction h with
  | done a => exact hf a
  | operand _ ih => exact .operand ih
  | declare type init next => exact .declare type init _
  | block body next => exact .block body _
  | comment _ ih => exact .comment ih
  | report _ ih => exact .report ih
  | use _ ih => exact .use ih
  | remember _ ih => exact .remember ih
  | claim _ ih => exact .claim ih

theorem mapM {f : ι → Recipe Local α} (h : ∀ x, (f x).Guarded) (xs : List ι) :
    (xs.mapM f).Guarded := by
  suffices hloop : ∀ as : List α, (List.mapM.loop f xs as).Guarded from hloop []
  induction xs with
  | nil => exact fun as => .done _
  | cons x xs ih => exact fun as => (h x).bind fun a => ih (a :: as)

theorem answer {box : BoxId} {next : Option (Value Local) → Recipe Local α}
    (h : (Recipe.operand box next).Guarded) (v : Option (Value Local)) : (next v).Guarded := by
  cases h with
  | operand h => exact h v

end Guarded

theorem guarded_customCode {site : Site} {text : String} {i : Nat} (hc : site.node.IsCustom text)
    (hi : CustomCode.output? site.box = some i) : (customCode site : Recipe Local _).Guarded := by
  have houtputs : (customOutputs site : Recipe Local _).Guarded := by
    refine .mapM (fun i => ?_) _
    split
    · exact .declare _ _ _
    · exact .done _
  have hinputs : (customInputs : Recipe Local _).Guarded := by
    refine .mapM (fun i => .operand fun v => ?_) _
    cases v with
    | none => exact .done _
    | some v => exact (silent_castTo _ v).guarded
  rw [customCode_eq hc hi]
  exact .use (houtputs.bind fun outputs => hinputs.bind fun inputs => .comment (.block _ _))

end Recipe

/-- Only depth fading samples a texture, once it has declared where. -/
theorem Site.recipe_guarded (site : Site) (domain : Domain) (stage : Stage) :
    (site.recipe domain stage : Recipe Local _).Guarded := by
  have hparam (box : BoxId) (param : Nat) :=
    (Recipe.silent_operandOrParam (ρ := Local) site box param).guarded
  have hoperand (box : BoxId) (v : Value Local) := (Recipe.silent_operandOr box v).guarded
  have hcast (type : ValueType) (v : Value Local) := (Recipe.silent_castTo type v).guarded
  have hinvalid := (Recipe.silent_invalidOutput (ρ := Local) site).guarded
  by_cases hcustom : ∃ text i, site.node.IsCustom text ∧ CustomCode.output? site.box = some i
  · obtain ⟨text, i, hc, hi⟩ := hcustom
    unfold Site.recipe
    rw [hc.kind]
    exact Recipe.guarded_customCode hc hi
  · unfold Site.recipe
    cases hk : site.node.kind with
    | customCode =>
      have hsilent : (site.recipe domain stage : Recipe Local _).Silent :=
        by_contra fun hs => hcustom (Site.Writes.custom ⟨domain, stage, hs⟩ hk)
      unfold Site.recipe at hsilent
      rw [hk] at hsilent
      exact hsilent.guarded
    | cameraDepthFade =>
      refine (hparam 0 0).bind fun _ => (hcast _ _).bind fun length => ?_
      refine (hparam 1 1).bind fun _ => (hcast _ _).bind fun offset => ?_
      exact .comment (.declare _ _ _)
    | depthFade => exact (hcast _ _).bind fun distance => .comment (.declare _ _ _)
    | interpolateVsToPs =>
      cases stage with
      | vertex => exact (hoperand 0 _).bind fun v => hcast _ v
      | pixel =>
        refine .claim fun c => ?_
        cases c with
        | granted => exact .use (.done _)
        | full => exact .report (.done _)
        | unsupported => exact .report (.done _)
    | blendNormals =>
      refine (hoperand 0 _).bind fun _ => (hcast _ _).bind fun base => ?_
      exact (hoperand 1 _).bind fun _ => (hcast _ _).bind fun detail => .declare _ _ _
    | bool | integer | float | vector2 | vector3 | vector4 =>
      dsimp only [Recipe.constant]
      split
      · exact hcast _ _
      · exact .done _
    | add | subtract | multiply | divide | min | max | dot =>
      refine (hparam 0 0).bind fun a => (hparam 1 1).bind fun b => ?_
      exact (hcast _ a).bind fun a => (hcast _ b).bind fun b => .declare _ _ _
    | abs | saturate | normalize => exact (hparam 0 0).bind fun x => .declare _ _ _
    | cameraVector | depth => exact .declare _ _ _
    | vertexColor => exact .use (.done _)
    | terrainLayerWeight =>
      dsimp only [Recipe.terrainLayerWeight]
      split
      · split
        · exact .done _
        · exact .report (.done _)
      · exact .done _
    | terrainHolesMask =>
      dsimp only
      split <;> exact .done _
    | preSkinnedLocalPosition | preSkinnedLocalNormal => cases stage <;> exact .done _
    | view | screenSize =>
      dsimp only
      split
      all_goals first | exact .done _ | exact hinvalid
    | screenPosition =>
      dsimp only
      split
      · exact .done _
      · exact .declare _ _ _
      · exact hinvalid
    | _ => exact .done _

/-- The task samples nothing before it writes something. -/
def Task.Guarded : Task → Prop
  | recipe _ r => r.Guarded
  | _ => True

namespace State

theorem report_textures (s : State) (key : BoxKey) (cause : Cause) :
    (s.report key cause).textures = s.textures :=
  (SameButNotes.report s key cause).textures

theorem made_textures {s s' : State} {site : Site} {function : MaterialFunction} {graph : Nat}
    (h : (s.ask site.node.callee).instantiate site function = (graph, s')) :
    s'.textures = s.textures := by
  cases hi : (s.ask site.node.callee).instanceOf? site.key.graph site.key.node with
  | some found =>
    rw [instantiate_of_some hi] at h
    cases h
    rfl
  | none =>
    rw [instantiate_of_none hi] at h
    cases h
    rfl

end State

section

variable {settings : Settings} {key : BoxKey} {s s' : State} {r r' : Recipe Local (Value Local)}

/-- A request either leaves the textures alone or is preceded by something written. -/
theorem Recipe.Guarded.effect (h : r.Guarded) (he : r.effect? settings key s = some (r', s')) :
    r'.Guarded ∧ s'.textures = s.textures ∨ s'.writer.statements ≠ [] := by
  cases h with
  | done | operand => cases he
  | declare | block =>
    cases he
    exact .inr (by simp [Writer.declare, Writer.push])
  | comment h =>
    cases he
    refine .inl ⟨h, ?_⟩
    split <;> rfl
  | report h =>
    cases he
    exact .inl ⟨h, s.report_textures key _⟩
  | use h =>
    cases he
    exact .inl ⟨h, rfl⟩
  | @remember box value _ h =>
    cases he
    obtain ⟨memory, hm⟩ := s.remember_eq (key.sibling box) value
    rw [hm]
    exact .inl ⟨h, rfl⟩
  | @claim input _ h =>
    cases he
    refine .inl ⟨h _, ?_⟩
    unfold State.claim
    split
    · rfl
    · split <;> rfl

/-- As long as nothing is written, nothing is sampled. -/
theorem Runs.textures_of_unwritten {t : Task} {v : Value Local} (h : Runs settings t s v s')
    (ht : t.Guarded) (hend : s'.writer.statements = []) : s'.textures = s.textures := by
  induction h with
  | leaf h =>
    cases h with
    | remembered | absent | done => rfl
    | reentered | notLoaded | recursive | outside | undeclared => exact State.report_textures _ _ _
    | unlisted _ _ _ hi => exact (State.report_textures _ _ _).trans (State.made_textures hi)
    | unfed _ _ _ hi => exact State.made_textures hi
  | @unary _ _ v _ _ h hn ih =>
    cases h with
    | @dispatched key _ _ _ s' =>
      obtain ⟨memory, hfinish⟩ := s'.finish_eq key v
      rw [hfinish] at hend ⊢
      exact ih trivial hend
    | plain => exact ih (Site.recipe_guarded _ _ _) hend
    | called _ _ _ hi =>
      have hmade := State.made_textures hi
      exact (ih trivial hend).trans hmade
    | passed => exact ih trivial hend
    | defaulted => exact ih (Recipe.silent_operandOrParam _ _ _).guarded hend
    | unconnected => exact ih (Recipe.Guarded.answer ht _) hend
    | effect he =>
      have hmid := List.prefix_nil.mp (hend ▸ hn.grows.statements)
      rcases Recipe.Guarded.effect ht he with ⟨hr, htextures⟩ | hwritten
      · exact (ih hr hend).trans htextures
      · exact absurd hmid hwritten
  | binary h _ hn ih ihn =>
    cases h with
    | connected =>
      have hmid := List.prefix_nil.mp (hend ▸ hn.grows.statements)
      exact (ihn (Recipe.Guarded.answer ht _) hend).trans (ih trivial hmid)

end

/-! ### Statements and slots -/

/-- Every statement takes a line at least. -/
theorem Statement.breaks_source_pos (statement : Statement) :
    0 < Text.breaks statement.source := by
  rw [Text.breaks, List.count_pos_iff]
  cases statement <;> simp [source, Literal.toString_self]

theorem Writer.statements_of_breaks {w : Writer} (h : Text.breaks w.source = 0) :
    w.statements = [] := by
  rw [source] at h
  cases hw : w.statements with
  | nil => rfl
  | cons statement statements =>
    have hpos := statement.breaks_source_pos
    rw [hw, List.map_cons, String.join_cons, Text.breaks_append] at h
    omega

theorem State.AddsSlots.le_room {settings : Settings} {s s' : State} (h : s.AddsSlots settings s')
    (hs : s.slots.length ≤ settings.room) : s'.slots.length ≤ settings.room := by
  unfold Settings.room at hs ⊢
  cases hd : settings.domain.supportsInterpolants with
  | true =>
    rw [hd] at hs
    exact h.bounded hs
  | false =>
    rw [hd] at hs
    rw [h.unsupported hd]
    exact hs

/-- Two materials with the same stages, interpolants and textures. -/
structure Material.SameShaders (m m' : Material) : Prop where
  pixel : m'.pixel = m.pixel
  vertex : m'.vertex = m.vertex
  interpolants : m'.interpolants = m.interpolants
  textures : m'.textures = m.textures

namespace State

/-- Nothing is remembered, written or noted; only the graphs that were made for calls, and the
record, are left. -/
def cleared (s : State) : State :=
  { s with
    stage := .pixel, memory := [], writer := {}, slots := [], textures := [], usage := {},
    diagnostics := [] }

/-- What is left behind is in order: graphs are named by their call nodes, there is room for all
slots, and where there are textures there are statements. -/
structure Leaves (settings : Settings) (s : State) : Prop where
  named : Named s.instances
  slots : s.slots.length ≤ settings.room
  textures : s.writer.statements = [] → s.textures = []

variable {settings : Settings} {g : Graph} {s : State}

theorem Idle.cleared (h : s.Idle settings g) : s.cleared.Idle settings g where
  sound :=
    { h.sound with
      slots := fun _ hmem => by cases hmem
      diagnostics := fun _ hmem => by cases hmem }
  active := h.active
  context := h.context

end State

namespace Generator

variable {settings : Settings} {library : Library} {g : Graph} {e e' : Evaluator} {s : State}

theorem leaves_after (g : Graph) (domain : Domain) (resolver : Resolver) (config : Config)
    (requests : List Request) :
    let gen := ((new g domain resolver).withConfig config).after requests
    gen.state.Leaves gen.settings := by
  intro gen
  let settings := ((new g domain resolver).withConfig config).settings
  have hidle := idle_new g domain resolver config
  have hstep : ∀ (request : Request) s v s', s.Idle settings g →
      Runs settings (request.task s) s v s' →
      s.slots.length ≤ settings.room ∧ (s.writer.statements = [] → s.textures = []) →
      s'.slots.length ≤ settings.room ∧ (s'.writer.statements = [] → s'.textures = []) := by
    rintro request s v s' - hr ⟨hslots, ht⟩
    refine ⟨(hr.stepwise (State.stepwise_addsSlots _)).le_room hslots, fun hend => ?_⟩
    have hguarded : (request.task s).Guarded := by
      cases request with
      | output => trivial
      | input => exact (Recipe.silent_operandOr _ _).guarded
    rw [hr.textures_of_unwritten hguarded hend]
    exact ht (List.prefix_nil.mp (hend ▸ hr.grows.statements))
  obtain ⟨hsettings, -, -, hslots, htextures⟩ :=
    after_induction _ hstep hidle ⟨Nat.zero_le _, fun _ => rfl⟩ requests
  obtain ⟨-, hattributed⟩ := State.Attributed.throughout.reaches hidle (.ofGraph g)
    (fun _ h => h.1) (fun _ h => h) (.answered requests)
  rw [hsettings]
  exact ⟨hattributed.named, hslots, htextures⟩

/-- Graphs that are left over make no difference. -/
theorem stages_cleared (hr : settings.resolver = ⟨[library]⟩)
    (he : Engine.Follows settings g [] e) (he' : Engine.Follows settings g [] e')
    (hs : s.Idle settings g) (hn : Named s.instances) (output : Nat) :
    (stages e' output s.cleared).1 = (stages e output (.ofGraph g)).1 := by
  have hfresh : (State.ofGraph g).Idle settings g := ⟨State.sound_ofGraph settings g, rfl, rfl⟩
  have hparallel := hs.cleared.parallel (Graph.Embeds.refl g) rfl rfl
    fun _ : True => ⟨.nil, rfl, rfl, rfl, named_single g, hn⟩
  exact stages_pair hr he he' ⟨hfresh, hs.cleared, hparallel, .inl trivial⟩ output

/-- What was remembered before, and in which stage, makes no difference. -/
theorem stages_congr {u : State} (h : s.beginStage .pixel = u.beginStage .pixel) (e : Evaluator)
    (output : Nat) : stages e output s = stages e output u := by
  rw [stages_eq, stages_eq, pixelStage_eq, pixelStage_eq, h]

/-- Notes that are left over make no difference to the shaders. -/
theorem stages_unwritten (he : Engine.Follows settings g [] e) (hs : s.Idle settings g)
    (hw : s.writer.statements = []) (hslots : s.slots = []) (ht : s.textures = []) (output : Nat) :
    (stages e output s.cleared).1.SameShaders (stages e output s).1 := by
  have hidle : { s with stage := .pixel, memory := [] }.Idle settings g :=
    ⟨{ hs.sound with }, hs.active, hs.context⟩
  have hwriter : {} = s.writer := congrArg Writer.mk hw.symm
  have halike : s.cleared.Alike (verbatim settings) { s with stage := .pixel, memory := [] } :=
    ⟨rfl, rfl, rfl, rfl, rfl, .nil, hwriter, hslots.symm, ht.symm⟩
  obtain ⟨pixel, vertex, s', u', hend, hm, hm'⟩ :=
    (lockstep_verbatim he he output).stages ⟨hs.cleared, hidle, halike⟩
  have hforget : s.beginStage .pixel =
    { s with stage := .pixel, memory := [] }.beginStage .pixel := rfl
  have hslots' : s'.slots = u'.slots := hend.alike.slots
  have htextures' : s'.textures = u'.textures := hend.alike.textures
  rw [stages_congr hforget, hm, hm']
  exact ⟨rfl, rfl, congrArg List.length hslots'.symm, htextures'.symm⟩

theorem stages_interpolants (e : Evaluator) (output : Nat) (s : State) :
    (stages e output s).1.interpolants = (stages e output s).2.slots.length := by
  rw [stages_eq]
  dsimp only
  generalize vertexStage e output (pixelStage e output s).2 = p
  rfl

theorem stages_code (he : Engine.Follows settings g [] e) (hs : s.Idle settings g) (output : Nat) :
    ∃ rest, (stages e output s).1.pixel.code = s.writer.source ++ rest := by
  obtain ⟨-, -, hgrows, -⟩ := (keeps_true settings g output).parameters he (hs.beginStage .pixel)
    trivial .pixel
  rw [stages_eq, pixelStage_eq]
  generalize parameters e output .pixel (s.beginStage .pixel) = p at hgrows ⊢
  exact State.source_mono hgrows.statements

/-- The pixel code begins with the statements that are left over and goes on with as many lines as
without them. The slots that are left over come before those that are claimed now. -/
theorem stages_left (he : Engine.Follows settings g [] e) (hs : s.Idle settings g)
    (hroom : s.slots.length ≤ settings.room) (output : Nat) :
    (∃ rest, (stages e output s).1.pixel.code = s.writer.source ++ rest ∧
      Text.breaks rest = Text.breaks (stages e output s.cleared).1.pixel.code) ∧
    (stages e output s).1.interpolants =
      min settings.room (s.slots.length + (stages e output s.cleared).1.interpolants) := by
  have halike : (s.cleared.beginStage .pixel).Alike
      (outline settings settings.slotLimit (Text.breaks s.writer.source) s.slots)
      (s.beginStage .pixel) :=
    ⟨rfl, rfl, rfl, rfl, rfl, .nil, rfl, ⟨[], List.take_nil.symm, by simp; rfl⟩, trivial⟩
  obtain ⟨hbreaks, claimed, hclaimed, hall⟩ := stages_outline he he hs.cleared hs halike output
  obtain ⟨rest, hrest⟩ := stages_code he hs output
  constructor
  · refine ⟨rest, hrest, ?_⟩
    rw [hrest, Text.breaks_append] at hbreaks
    omega
  · have hsame : (settings.withLimit settings.slotLimit).room = settings.room := rfl
    rw [stages_interpolants, stages_interpolants, hall, hclaimed, hsame, List.length_append,
      List.length_take, List.length_take]
    omega

end Generator

/-- A generator that was asked for boxes generates the material if and only if a new one does. Its
pixel code begins with the statements that were written for these boxes, followed by as many lines
as the new one writes, and the slots that they claimed count as interpolants. So the shaders are the
same if no statements and no slots are left, and if they are the same then no statements are left,
and slots only if the new generator takes all of them. -/
theorem generate_after_requests (g : Graph) (domain : Domain) (library : Library) (config : Config)
    (requests : List Request) :
    let fresh := (Generator.new g domain ⟨[library]⟩).withConfig config
    let used := fresh.after requests
    let left := used.state
    (fresh.generate.1 = .error .missingOutputNode ∧ used.generate.1 = .error .missingOutputNode) ∨
      ∃ m m', fresh.generate.1 = .ok m ∧ used.generate.1 = .ok m' ∧
        (∃ rest, m'.pixel.code = left.writer.source ++ rest ∧
          Text.breaks rest = Text.breaks m.pixel.code) ∧
        m'.interpolants = min fresh.settings.room (left.slots.length + m.interpolants) ∧
        (left.writer.statements = [] → left.slots = [] → m.SameShaders m') ∧
        (m.SameShaders m' → left.writer.statements = [] ∧
          (left.slots = [] ∨ m.interpolants = fresh.settings.room)) := by
  intro fresh used left
  have hresolver : fresh.settings.resolver = ⟨[library]⟩ := rfl
  have hstart : fresh.state = .ofGraph fresh.material := rfl
  have hfresh : fresh.state.Idle fresh.settings fresh.material :=
    ⟨State.sound_ofGraph _ g, rfl, rfl⟩
  obtain ⟨hsettings, hmaterial, hidle⟩ := Generator.after_idle hfresh requests
  have hleaves : used.state.Leaves used.settings :=
    Generator.leaves_after g domain ⟨[library]⟩ config requests
  change used.settings = fresh.settings at hsettings
  change used.material = fresh.material at hmaterial
  change used.state.Idle fresh.settings fresh.material at hidle
  clear_value used fresh
  have he := fresh.follows_evaluator
  have he' := used.follows_evaluator
  rw [hsettings] at hleaves he'
  rw [hmaterial] at he'
  cases ho : fresh.material.findKind? .materialOutput with
  | none =>
    have ho' : used.material.findKind? .materialOutput = none := by rw [hmaterial, ho]
    rw [Generator.generate_none ho, Generator.generate_none ho']
    exact .inl ⟨rfl, rfl⟩
  | some output =>
    have ho' : used.material.findKind? .materialOutput = some output := by rw [hmaterial, ho]
    have hsame := Generator.stages_cleared hresolver he he' hidle hleaves.named output
    obtain ⟨hcode, hinterpolants⟩ := Generator.stages_left he' hidle hleaves.slots output
    have hunwritten := fun hw hslots =>
      Generator.stages_unwritten he' hidle hw hslots (hleaves.textures hw) output
    rw [Generator.generate_eq ho, Generator.generate_eq ho', hstart]
    rw [hsame] at hcode hinterpolants hunwritten
    dsimp only
    generalize (Generator.stages fresh.evaluator output (.ofGraph fresh.material)).1 = m at *
    generalize (Generator.stages used.evaluator output used.state).1 = m' at *
    refine .inr ⟨m, m', rfl, rfl, hcode, hinterpolants, hunwritten, fun h => ?_⟩
    obtain ⟨rest, hrest, hbreaks⟩ := hcode
    have hnone : Text.breaks used.state.writer.source = 0 := by
      have hlines := congrArg (fun stage => Text.breaks stage.code) h.pixel
      rw [hrest, Text.breaks_append] at hlines
      omega
    have hslots : used.state.slots.length = 0 ∨ m.interpolants = fresh.settings.room := by
      have hcount := h.interpolants
      have hroom := hleaves.slots
      omega
    rw [List.length_eq_zero_iff] at hslots
    exact ⟨Writer.statements_of_breaks hnone, hslots⟩

/-- A function that gives back its argument. -/
def passing : MaterialFunction where
  id := ⟨8⟩
  graph := .build [.add .functionInput [], .add .functionOutput [], .connect 0 0 1 0]
  inputs := [1]
  outputs := [2]

/-- Its color is the position, by way of a call. -/
def positioned : Graph :=
  .build [.add .materialOutput [], .add .materialFunction [.asset passing.id],
    .add .worldPosition [], .connect 2 0 1 0, .connect 1 16 0 0]

/-- The graph of the call is left over, and the shaders are the same. -/
theorem positioned_after_request :
    let fresh := (Generator.new positioned .surface ⟨[⟨[.loaded passing]⟩]⟩).withConfig {}
    let used := fresh.after [.output 1 16]
    fresh.state.instances.length = 1 ∧ used.state.instances.length = 2 ∧
      ∃ m m', fresh.generate.1 = .ok m ∧ used.generate.1 = .ok m' ∧ m.SameShaders m' := by
  have hleft : let used := ((Generator.new positioned .surface
        ⟨[⟨[.loaded passing]⟩]⟩).withConfig {}).after [.output 1 16]
      used.state.instances.length = 2 ∧ used.state.writer.statements = [] ∧
        used.state.slots = [] := by
    decide +kernel
  have hfound : ((Generator.new positioned .surface
      ⟨[⟨[.loaded passing]⟩]⟩).withConfig {}).generate.1.toOption.isSome = true := by
    decide +kernel
  obtain ⟨hinstances, hwriter, hslots⟩ := hleft
  refine ⟨rfl, hinstances, ?_⟩
  rcases generate_after_requests positioned .surface ⟨[.loaded passing]⟩ {} [.output 1 16] with
    ⟨hnone, -⟩ | ⟨m, m', hm, hm', -, -, hsame, -⟩
  · rw [hnone] at hfound
    cases hfound
  · exact ⟨m, m', hm, hm', hsame hwriter hslots⟩

/-- Its color is the vector to the camera. -/
def facing : Graph :=
  .build [.add .materialOutput [], .add .cameraVector [], .connect 1 0 0 0]

/-- A vector that was asked for before is computed once more. -/
theorem facing_after_request :
    let fresh := (Generator.new facing .surface ⟨[{}]⟩).withConfig {}
    let used := fresh.after [.output 1 0]
    ∃ m m', fresh.generate.1 = .ok m ∧ used.generate.1 = .ok m' ∧ ¬m.SameShaders m' ∧
      m.pixel.code = "  float3 local0 = normalize(ViewPos - input.WorldPosition.xyz);\n" ∧
      m'.pixel.code = "  float3 local0 = normalize(ViewPos - input.WorldPosition.xyz);\n" ++
        "  float3 local1 = normalize(ViewPos - input.WorldPosition.xyz);\n" := by
  have hfresh : ((Generator.new facing .surface ⟨[{}]⟩).withConfig {}).generate.1.toOption.map
      (·.pixel.code) =
        some "  float3 local0 = normalize(ViewPos - input.WorldPosition.xyz);\n" := by
    decide +kernel
  have hused : (((Generator.new facing .surface ⟨[{}]⟩).withConfig {}).after
      [.output 1 0]).generate.1.toOption.map (·.pixel.code) =
        some ("  float3 local0 = normalize(ViewPos - input.WorldPosition.xyz);\n" ++
          "  float3 local1 = normalize(ViewPos - input.WorldPosition.xyz);\n") := by
    decide +kernel
  obtain ⟨m, hm, hcode⟩ := Generator.generate_ok_of_map hfresh
  obtain ⟨m', hm', hcode'⟩ := Generator.generate_ok_of_map hused
  refine ⟨m, m', hm, hm', fun h => ?_, hcode, hcode'⟩
  have hpixel := congrArg StageSource.code h.pixel
  rw [hcode, hcode'] at hpixel
  exact absurd hpixel (by decide +kernel)

end ShaderGraph
