import ShaderGraph.Graph.Build
import ShaderGraph.Proofs.Requests

/-! The two stages of a material. Parameters and interpolants are evaluated one after the other;
what each evaluation keeps is kept by a stage, and what is known of a value when it is evaluated is
known at the end of its stage. -/

namespace ShaderGraph

namespace Eval

variable {ι α : Type} {P : State → Prop}

theorem mapM_cons_apply (f : ι → Eval α) (x : ι) (xs : List ι) (s : State) :
    (x :: xs).mapM f s = ((f x s).1 :: (xs.mapM f (f x s).2).1, (xs.mapM f (f x s).2).2) := by
  rw [List.mapM_cons]
  rfl

/-- A sequence of evaluations keeps what each of them keeps; what is known of a result stays
known. -/
theorem mapM_spec {f : ι → Eval α} {Q : ι → α → State → Prop}
    (hQ : ∀ x a s s', s.Grows s' → Q x a s → Q x a s') (xs : List ι)
    (h : ∀ x ∈ xs, ∀ s, P s → P (f x s).2 ∧ s.Grows (f x s).2 ∧ Q x (f x s).1 (f x s).2)
    (s : State) (hs : P s) :
    P (xs.mapM f s).2 ∧ s.Grows (xs.mapM f s).2 ∧
      List.Forall₂ (fun x a => Q x a (xs.mapM f s).2) xs (xs.mapM f s).1 := by
  induction xs generalizing s with
  | nil => exact ⟨hs, .refl s, .nil⟩
  | cons x xs ih =>
    obtain ⟨hs', hg, hx⟩ := h x List.mem_cons_self s hs
    obtain ⟨hend, hgrows, hxs⟩ := ih (fun y hy => h y (List.mem_cons_of_mem x hy)) _ hs'
    rw [mapM_cons_apply]
    exact ⟨hend, hg.trans hgrows, .cons (hQ x _ _ _ hgrows hx) hxs⟩

theorem forall₂_right {Q : α → Prop} {xs : List ι} {as : List α}
    (h : List.Forall₂ (fun _ a => Q a) xs as) : ∀ a ∈ as, Q a := by
  induction h with
  | nil => simp
  | cons ha _ ih => simpa using ⟨ha, ih⟩

/-- Evaluations that agree one by one agree in sequence. -/
theorem mapM_congr {f f' : ι → Eval α} (xs : List ι)
    (h : ∀ x ∈ xs, ∀ s, P s → f x s = f' x s ∧ P (f x s).2) (s : State) (hs : P s) :
    xs.mapM f s = xs.mapM f' s := by
  induction xs generalizing s with
  | nil => rfl
  | cons x xs ih =>
    obtain ⟨heq, hs'⟩ := h x List.mem_cons_self s hs
    rw [mapM_cons_apply, mapM_cons_apply, ← heq,
      ih (fun y hy => h y (List.mem_cons_of_mem x hy)) _ hs']

/-- Evaluations that correspond one by one correspond in sequence. -/
theorem mapM_forall₂ {κ β : Type} {f : ι → Eval α} {k : κ → Eval β} {R : ι → κ → Prop}
    {S : α → β → Prop} {P : State → State → Prop} {xs : List ι} {ys : List κ}
    (hxy : List.Forall₂ R xs ys)
    (h : ∀ x y, R x y → ∀ s u, P s u → S (f x s).1 (k y u).1 ∧ P (f x s).2 (k y u).2)
    {s u : State} (hs : P s u) :
    List.Forall₂ S (xs.mapM f s).1 (ys.mapM k u).1 ∧ P (xs.mapM f s).2 (ys.mapM k u).2 := by
  induction hxy generalizing s u with
  | nil => exact ⟨.nil, hs⟩
  | cons hxy _ ih =>
    obtain ⟨hvalue, hnext⟩ := h _ _ hxy s u hs
    obtain ⟨hvalues, hend⟩ := ih hnext
    rw [mapM_cons_apply, mapM_cons_apply]
    exact ⟨.cons hvalue hvalues, hend⟩

theorem mapM_pair {κ : Type} {f : ι → Eval α} {k : κ → Eval α} {R : ι → κ → Prop}
    {P : State → State → Prop} {xs : List ι} {ys : List κ} (hxy : List.Forall₂ R xs ys)
    (h : ∀ x y, R x y → ∀ s u, P s u → (k y u).1 = (f x s).1 ∧ P (f x s).2 (k y u).2)
    {s u : State} (hs : P s u) :
    (ys.mapM k u).1 = (xs.mapM f s).1 ∧ P (xs.mapM f s).2 (ys.mapM k u).2 := by
  obtain ⟨hvalues, hend⟩ := mapM_forall₂ (S := fun a b => b = a) hxy h hs
  have hsame : List.Forall₂ Eq (ys.mapM k u).1 (xs.mapM f s).1 := hvalues.flip
  rw [List.forall₂_eq_eq_eq] at hsame
  exact ⟨hsame, hend⟩

theorem forall₂_and_mem {α β : Type} {R : α → β → Prop} {l : List α} {l' : List β}
    (h : List.Forall₂ R l l') : List.Forall₂ (fun x y => R x y ∧ x ∈ l ∧ y ∈ l') l l' := by
  induction h with
  | nil => exact .nil
  | cons hxy _ ih =>
    refine .cons ⟨hxy, List.mem_cons_self, List.mem_cons_self⟩ (ih.imp fun x y h => ?_)
    exact ⟨h.1, List.mem_cons_of_mem _ h.2.1, List.mem_cons_of_mem _ h.2.2⟩

theorem forall₂_zipIdx {α β : Type} {R : α → β → Prop} {l : List α} {l' : List β}
    (h : List.Forall₂ R l l') (n : Nat) :
    List.Forall₂ (fun x y => R x.1 y.1 ∧ y.2 = x.2) (l.zipIdx n) (l'.zipIdx n) := by
  induction h generalizing n with
  | nil => exact .nil
  | cons hxy _ ih =>
    rw [List.zipIdx_cons, List.zipIdx_cons]
    exact .cons ⟨hxy, rfl⟩ (ih (n + 1))

end Eval

namespace Generator

variable {settings : Settings} {g : Graph} {e e' : Evaluator} {output : Nat} {s : State}

/-! ### Single values -/

theorem parameter_runs (he : Engine.Follows settings g [] e) (hs : s.Idle settings g)
    (output : Nat) (p : Parameter) :
    Runs settings (.recipe ⟨0, output, p.box⟩ p.recipe) s (parameter e output p s).1.value
      (parameter e output p s).2 := by
  rw [parameter_eq settings]
  exact he.recipe _ _ s hs.sound (p.located hs output) hs.active

/-- An interpolant is evaluated in the context in which its slot was claimed. -/
theorem interpolant_runs (he : Engine.Follows settings g [] e) (hs : s.Idle settings g)
    {slot : Slot} (hslot : slot ∈ s.slots) (i : Nat) :
    ∃ s', Runs settings (.recipe slot.node slot.recipe) { s with context := slot.context }
        (interpolant e slot i s).1.value s' ∧
      (interpolant e slot i s).2 = { s' with context := s.context } := by
  obtain ⟨hvalid, hcur, hinput⟩ := hs.sound.slots slot hslot
  rw [interpolant_eq settings e hinput]
  exact ⟨_, he.recipe _ _ _ (hs.sound.withContext hvalid) ⟨hcur, slot.recipe_callFree⟩ hs.active,
    rfl⟩

theorem interpolant_idle {s' : State} {slot : Slot} {v : Value Local} (hs : s.Idle settings g)
    (hslot : slot ∈ s.slots)
    (hr : Runs settings (.recipe slot.node slot.recipe) { s with context := slot.context } v s') :
    { s' with context := s.context }.Idle settings g ∧
      s.Grows { s' with context := s.context } := by
  obtain ⟨hvalid, hcur, -⟩ := hs.sound.slots slot hslot
  have hg := hr.grows
  have hsound := hr.sound (hs.sound.withContext hvalid) ⟨hcur, slot.recipe_callFree⟩
  refine ⟨⟨hsound.withContext (hs.sound.context.mono hg.instances), ?_, hs.context⟩, ?_⟩
  · exact hg.active.trans hs.active
  · exact ⟨hg.instances, hg.statements, hg.slots, hg.diagnostics, rfl, hg.active, hg.stage⟩

/-! ### The shape of a stage

The equations are stated for any evaluations in the place of the parameters and interpolants, so
that nothing has to be unfolded to check them. -/

/-- The values of the interpolants, each from its slot. -/
def interpolants (e : Evaluator) (slots : List Slot) : Eval (List StageOutput) :=
  slots.zipIdx.mapM fun (slot, i) => interpolant e slot i

theorem stage_apply (stage : Stage) (first : Eval (List StageOutput)) (s : State) :
    (do
      modify (·.beginStage stage)
      let outputs ← first
      return .ofWriter (← modifyGet State.takeWriter) outputs : Eval StageSource) s =
      (.ofWriter (first (s.beginStage stage)).2.writer (first (s.beginStage stage)).1,
        (first (s.beginStage stage)).2.takeWriter.2) :=
  rfl

theorem stage_interpolants_apply (stage : Stage) (first : Eval (List StageOutput))
    (second : List Slot → Eval (List StageOutput)) (s : State) :
    (do
      modify (·.beginStage stage)
      let outputs ← first
      let slots := (← get).slots
      let interpolants ← second slots
      return .ofWriter (← modifyGet State.takeWriter) (outputs ++ interpolants) :
        Eval StageSource) s =
      let p := first (s.beginStage stage)
      let q := second p.2.slots p.2
      (.ofWriter q.2.writer (p.1 ++ q.1), q.2.takeWriter.2) :=
  rfl

theorem pixelStage_eq (e : Evaluator) (output : Nat) (s : State) :
    pixelStage e output s =
      (.ofWriter (parameters e output .pixel (s.beginStage .pixel)).2.writer
          (parameters e output .pixel (s.beginStage .pixel)).1,
        (parameters e output .pixel (s.beginStage .pixel)).2.takeWriter.2) :=
  stage_apply .pixel (parameters e output .pixel) s

theorem vertexStage_eq (e : Evaluator) (output : Nat) (s : State) :
    vertexStage e output s =
      let p := parameters e output .vertex (s.beginStage .vertex)
      let q := interpolants e p.2.slots p.2
      (.ofWriter q.2.writer (p.1 ++ q.1), q.2.takeWriter.2) :=
  stage_interpolants_apply .vertex (parameters e output .vertex) (interpolants e) s

theorem material_apply (first second : Eval StageSource) (s : State) :
    (do
      let pixel ← first
      let vertex ← second
      modify fun s => s.record (.finished s.slots.length s.diagnostics.length)
      let s ← get
      return ⟨pixel, vertex, s.slots.length, s.textures, s.usage, s.diagnostics⟩ :
        Eval Material) s =
      let p := first s
      let q := second p.2
      (⟨p.1, q.1, q.2.slots.length, q.2.textures, q.2.usage, q.2.diagnostics⟩,
        q.2.record (.finished q.2.slots.length q.2.diagnostics.length)) :=
  rfl

theorem stages_eq (e : Evaluator) (output : Nat) (s : State) :
    stages e output s =
      let p := pixelStage e output s
      let q := vertexStage e output p.2
      (⟨p.1, q.1, q.2.slots.length, q.2.textures, q.2.usage, q.2.diagnostics⟩,
        q.2.record (.finished q.2.slots.length q.2.diagnostics.length)) :=
  material_apply (pixelStage e output) (vertexStage e output) s

/-- The writers at the ends of the two stages of a material. -/
def stageWriters (e : Evaluator) (output : Nat) (s : State) : Writer × Writer :=
  let p := parameters e output .pixel (s.beginStage .pixel)
  let q := parameters e output .vertex (p.2.takeWriter.2.beginStage .vertex)
  (p.2.writer, (interpolants e q.2.slots q.2).2.writer)

/-- What the generator writes for the two stages of the material. -/
def written (gen : Generator) : Option (Writer × Writer) :=
  (gen.material.findKind? .materialOutput).map fun output =>
    stageWriters gen.evaluator output gen.state

/-! ### Stages of two materials -/

/-- Parameters of two evaluations that correspond one by one correspond in sequence. -/
theorem parameters_pair_of {output' : Nat} {P : State → State → Prop} {u : State}
    (h : ∀ p s u, P s u → (parameter e' output' p u).1 = (parameter e output p s).1 ∧
      P (parameter e output p s).2 (parameter e' output' p u).2) (hs : P s u) (stage : Stage) :
    (parameters e' output' stage u).1 = (parameters e output stage s).1 ∧
      P (parameters e output stage s).2 (parameters e' output' stage u).2 := by
  have hsame : List.Forall₂ Eq (Parameter.inStage stage) (Parameter.inStage stage) :=
    List.forall₂_same.mpr fun _ _ => rfl
  refine Eval.mapM_pair hsame ?_ hs
  rintro p _ rfl s u hs
  exact h p s u hs

/-- Interpolants of two evaluations that correspond slot by slot correspond in sequence. -/
theorem interpolants_pair_of {P : State → State → Prop} {R : Slot → Slot → Prop} {u : State}
    (h : ∀ slot slot' i s' u', R slot slot' → slot ∈ s'.slots → slot' ∈ u'.slots → s.Grows s' →
      u.Grows u' → P s' u' →
      (interpolant e' slot' i u').1 = (interpolant e slot i s').1 ∧
        P (interpolant e slot i s').2 (interpolant e' slot' i u').2 ∧
        s'.Grows (interpolant e slot i s').2 ∧ u'.Grows (interpolant e' slot' i u').2)
    (hslots : List.Forall₂ R s.slots u.slots) (hs : P s u) :
    (interpolants e' u.slots u).1 = (interpolants e s.slots s).1 ∧
      P (interpolants e s.slots s).2 (interpolants e' u.slots u).2 := by
  -- the slots stay where they are while interpolants are evaluated
  have hall := Eval.mapM_pair (f := fun p : Slot × Nat => interpolant e p.1 p.2)
    (k := fun p : Slot × Nat => interpolant e' p.1 p.2)
    (P := fun s' u' => P s' u' ∧ s.Grows s' ∧ u.Grows u')
    (Eval.forall₂_zipIdx (Eval.forall₂_and_mem hslots) 0) ?_ ⟨hs, .refl s, .refl u⟩
  · exact ⟨hall.1, hall.2.1⟩
  · rintro ⟨slot, i⟩ ⟨slot', j⟩ ⟨⟨hR, hmem, hmem'⟩, hij⟩ s' u' ⟨hs', hg, hg'⟩
    obtain rfl : j = i := hij
    obtain ⟨hvalue, hnext, hg₁, hg₁'⟩ := h slot slot' j s' u' hR (hg.slots.subset hmem)
      (hg'.slots.subset hmem') hg hg' hs'
    exact ⟨hvalue, hnext, hg.trans hg₁, hg'.trans hg₁'⟩

/-- Two evaluations in lockstep. They have the same values from states that are related by `P`, and
end in such states. -/
structure Lockstep (e e' : Evaluator) (output output' : Nat) (P : State → State → Prop) : Prop where
  onParameter : ∀ p s u, P s u → (parameter e' output' p u).1 = (parameter e output p s).1 ∧
    P (parameter e output p s).2 (parameter e' output' p u).2
  onInterpolants : ∀ s u, P s u →
    (interpolants e' u.slots u).1 = (interpolants e s.slots s).1 ∧
      P (interpolants e s.slots s).2 (interpolants e' u.slots u).2
  beginStage : ∀ stage s u, P s u → P (s.beginStage stage) (u.beginStage stage)
  takeWriter : ∀ s u, P s u → P s.takeWriter.2 u.takeWriter.2
  writer : ∀ s u, P s u → u.writer = s.writer

namespace Lockstep

variable {output' : Nat} {P : State → State → Prop} {u : State}

theorem pixelStage (h : Lockstep e e' output output' P) (hs : P s u) :
    (Generator.pixelStage e' output' u).1 = (Generator.pixelStage e output s).1 ∧
      P (Generator.pixelStage e output s).2 (Generator.pixelStage e' output' u).2 := by
  have hparameters := parameters_pair_of h.onParameter (h.beginStage .pixel s u hs) .pixel
  rw [pixelStage_eq, pixelStage_eq]
  generalize Generator.parameters e output .pixel (s.beginStage .pixel) = p at *
  generalize Generator.parameters e' output' .pixel (u.beginStage .pixel) = p' at *
  obtain ⟨hvalues, hend⟩ := hparameters
  rw [hvalues, h.writer _ _ hend]
  exact ⟨rfl, h.takeWriter _ _ hend⟩

theorem vertexStage (h : Lockstep e e' output output' P) (hs : P s u) :
    (Generator.vertexStage e' output' u).1 = (Generator.vertexStage e output s).1 ∧
      P (Generator.vertexStage e output s).2 (Generator.vertexStage e' output' u).2 := by
  have hparameters := parameters_pair_of h.onParameter (h.beginStage .vertex s u hs) .vertex
  rw [vertexStage_eq, vertexStage_eq]
  generalize Generator.parameters e output .vertex (s.beginStage .vertex) = p at *
  generalize Generator.parameters e' output' .vertex (u.beginStage .vertex) = p' at *
  obtain ⟨hvalues, hmid⟩ := hparameters
  have hinterpolants := h.onInterpolants _ _ hmid
  dsimp only
  generalize Generator.interpolants e p.2.slots p.2 = q at *
  generalize Generator.interpolants e' p'.2.slots p'.2 = q' at *
  obtain ⟨hvalues', hend⟩ := hinterpolants
  rw [hvalues, hvalues', h.writer _ _ hend]
  exact ⟨rfl, h.takeWriter _ _ hend⟩

/-- The two materials have the same stages, and the states in which they end are related. -/
theorem stages (h : Lockstep e e' output output' P) (hs : P s u) :
    ∃ pixel vertex s' u', P s' u' ∧
      (Generator.stages e output s).1 =
        ⟨pixel, vertex, s'.slots.length, s'.textures, s'.usage, s'.diagnostics⟩ ∧
      (Generator.stages e' output' u).1 =
        ⟨pixel, vertex, u'.slots.length, u'.textures, u'.usage, u'.diagnostics⟩ := by
  obtain ⟨hpixel, hmid⟩ := h.pixelStage hs
  have hvertex := h.vertexStage hmid
  rw [stages_eq, stages_eq]
  dsimp only
  rw [hpixel]
  generalize Generator.vertexStage e output (Generator.pixelStage e output s).2 = p at *
  generalize Generator.vertexStage e' output' (Generator.pixelStage e' output' u).2 = p' at *
  obtain ⟨hvertex, hend⟩ := hvertex
  rw [hvertex]
  exact ⟨_, _, _, _, hend, rfl, rfl⟩

end Lockstep

/-! ### What stages keep -/

/-- The predicate `P` is kept by the evaluation of every parameter and interpolant, whose values
then satisfy `V` and `U`. -/
structure Keeps (settings : Settings) (g : Graph) (output : Nat) (P : State → Prop)
    (V : Parameter → Value Local → State → Prop) (U : Value Local → State → Prop) : Prop where
  stable : ∀ p v s s', s.Grows s' → V p v s → V p v s'
  stable' : ∀ v s s', s.Grows s' → U v s → U v s'
  onParameter : ∀ p s v s', s.Idle settings g → P s →
    Runs settings (.recipe ⟨0, output, p.box⟩ p.recipe) s v s' → P s' ∧ V p v s'
  onInterpolant : ∀ slot s v s', slot ∈ s.slots → s.Idle settings g → P s →
    Runs settings (.recipe slot.node slot.recipe) { s with context := slot.context } v s' →
    P { s' with context := s.context } ∧ U v { s' with context := s.context }

section Keeps

variable {P : State → Prop} {V : Parameter → Value Local → State → Prop}
  {U : Value Local → State → Prop}

/-- The outputs of the parameters of a stage, in order. -/
def Outputs (V : Parameter → Value Local → State → Prop) (stage : Stage) (s : State)
    (outputs : List StageOutput) : Prop :=
  List.Forall₂ (fun p o => o.target = p.target ∧ V p o.value s) (Parameter.inStage stage) outputs

theorem Keeps.parameters (hk : Keeps settings g output P V U) (he : Engine.Follows settings g [] e)
    (hs : s.Idle settings g) (hP : P s) (stage : Stage) :
    (Generator.parameters e output stage s).2.Idle settings g ∧
      P (Generator.parameters e output stage s).2 ∧
      s.Grows (Generator.parameters e output stage s).2 ∧
      Outputs V stage (Generator.parameters e output stage s).2
        (Generator.parameters e output stage s).1 := by
  have hstable : ∀ p (o : StageOutput) s s', s.Grows s' →
      (o.target = p.target ∧ V p o.value s) → o.target = p.target ∧ V p o.value s' :=
    fun p o s s' hg h => ⟨h.1, hk.stable p o.value s s' hg h.2⟩
  have hspec := Eval.mapM_spec (f := parameter e output) (P := fun s => s.Idle settings g ∧ P s)
    hstable (Parameter.inStage stage) ?_ s ⟨hs, hP⟩
  · exact ⟨hspec.1.1, hspec.1.2, hspec.2.1, hspec.2.2⟩
  · rintro p - s ⟨hs, hP⟩
    have hr := parameter_runs he hs output p
    have hkept := hk.onParameter p s _ _ hs hP hr
    exact ⟨⟨hs.runs (p.located hs output) hr, hkept.1⟩, hr.grows, rfl, hkept.2⟩

theorem Keeps.interpolants (hk : Keeps settings g output P V U)
    (he : Engine.Follows settings g [] e) (hs : s.Idle settings g) (hP : P s) :
    (Generator.interpolants e s.slots s).2.Idle settings g ∧
      P (Generator.interpolants e s.slots s).2 ∧
      s.Grows (Generator.interpolants e s.slots s).2 ∧
      ∀ o ∈ (Generator.interpolants e s.slots s).1,
        U o.value (Generator.interpolants e s.slots s).2 := by
  -- the slots stay where they are while interpolants are evaluated
  have hspec := Eval.mapM_spec (f := fun (slot, i) => interpolant e slot i)
    (P := fun s' => s'.Idle settings g ∧ P s' ∧ s.slots <+: s'.slots)
    (Q := fun _ o s => U o.value s) (fun _ o s s' hg h => hk.stable' o.value s s' hg h)
    s.slots.zipIdx ?_ s ⟨hs, hP, List.prefix_refl _⟩
  · refine ⟨hspec.1.1, hspec.1.2.1, hspec.2.1, fun o ho => ?_⟩
    exact Eval.forall₂_right hspec.2.2 o ho
  · rintro ⟨slot, i⟩ hmem s' ⟨hs', hP', hp⟩
    have hslot : slot ∈ s'.slots := hp.subset (List.fst_mem_of_mem_zipIdx hmem)
    obtain ⟨s'', hr, hend⟩ := interpolant_runs he hs' hslot i
    have hkept := hk.onInterpolant slot s' _ _ hslot hs' hP' hr
    obtain ⟨hidle, hg⟩ := interpolant_idle hs' hslot hr
    dsimp only
    rw [hend]
    exact ⟨⟨hidle, hkept.1, hp.trans hg.slots⟩, hg, hkept.2⟩

theorem Keeps.pixelStage (hk : Keeps settings g output P V U)
    (he : Engine.Follows settings g [] e) (hs : s.Idle settings g)
    (hP : P (s.beginStage .pixel)) :
    ∃ s' outputs,
      Generator.pixelStage e output s = (.ofWriter s'.writer outputs, s'.takeWriter.2) ∧
      s'.Idle settings g ∧ P s' ∧ (s.beginStage .pixel).Grows s' ∧ Outputs V .pixel s' outputs := by
  have hpars := hk.parameters he (hs.beginStage .pixel) hP .pixel
  rw [pixelStage_eq]
  generalize Generator.parameters e output .pixel (s.beginStage .pixel) = p at hpars ⊢
  obtain ⟨hidle, hend, hgrows, houtputs⟩ := hpars
  exact ⟨p.2, p.1, rfl, hidle, hend, hgrows, houtputs⟩

/-- The parameters of the vertex stage, and the interpolants after them. -/
theorem Keeps.vertexOutputs (hk : Keeps settings g output P V U)
    (he : Engine.Follows settings g [] e) (hs : s.Idle settings g)
    (hP : P (s.beginStage .vertex)) :
    let p := Generator.parameters e output .vertex (s.beginStage .vertex)
    let q := Generator.interpolants e p.2.slots p.2
    q.2.Idle settings g ∧ P q.2 ∧ (s.beginStage .vertex).Grows q.2 ∧
      Outputs V .vertex q.2 p.1 ∧ ∀ o ∈ q.1, U o.value q.2 := by
  have hpars := hk.parameters he (hs.beginStage .vertex) hP .vertex
  dsimp only
  generalize Generator.parameters e output .vertex (s.beginStage .vertex) = p at hpars ⊢
  obtain ⟨hidle, hmid, hgrows, houtputs⟩ := hpars
  obtain ⟨hidle', hend, hgrows', houtputs'⟩ := hk.interpolants he hidle hmid
  refine ⟨hidle', hend, hgrows.trans hgrows', houtputs.imp fun par o h => ⟨h.1, ?_⟩, houtputs'⟩
  exact hk.stable par _ _ _ hgrows' h.2

/-- What holds of the states in which the two stages end, and of their outputs, if it is kept by
every evaluation and by the change from one stage to the other. What is kept in the vertex stage can
depend on the end of the pixel stage. -/
theorem Keeps.stages {Q : State → State → Prop} (hk : Keeps settings g output P V U)
    (hk' : ∀ s₁, Keeps settings g output (Q s₁) V U) (he : Engine.Follows settings g [] e)
    (hs : s.Idle settings g) (hP : P (s.beginStage .pixel))
    (hnext : ∀ s, s.Idle settings g → P s → Q s (s.takeWriter.2.beginStage .vertex)) :
    ∃ s₁ s₂ pixel vertex interpolants,
      stageWriters e output s = (s₁.writer, s₂.writer) ∧
      Generator.stages e output s =
        (⟨.ofWriter s₁.writer pixel, .ofWriter s₂.writer (vertex ++ interpolants), s₂.slots.length,
          s₂.textures, s₂.usage, s₂.diagnostics⟩,
          s₂.takeWriter.2.record (.finished s₂.slots.length s₂.diagnostics.length)) ∧
      s₁.Idle settings g ∧ P s₁ ∧ (s.beginStage .pixel).Grows s₁ ∧ Outputs V .pixel s₁ pixel ∧
      s₂.Idle settings g ∧ Q s₁ s₂ ∧ (s₁.takeWriter.2.beginStage .vertex).Grows s₂ ∧
      Outputs V .vertex s₂ vertex ∧ ∀ o ∈ interpolants, U o.value s₂ := by
  have hfirst := hk.parameters he (hs.beginStage .pixel) hP .pixel
  rw [stages_eq, pixelStage_eq]
  unfold stageWriters
  generalize Generator.parameters e output .pixel (s.beginStage .pixel) = p at hfirst ⊢
  obtain ⟨hidle₁, hP₁, hgrows₁, hout₁⟩ := hfirst
  have hsecond := (hk' p.2).vertexOutputs he hidle₁.takeWriter (hnext p.2 hidle₁ hP₁)
  dsimp only at hsecond ⊢
  rw [vertexStage_eq]
  generalize Generator.parameters e output .vertex (p.2.takeWriter.2.beginStage .vertex) = q at *
  dsimp only
  generalize Generator.interpolants e q.2.slots q.2 = r at *
  exact ⟨p.2, r.2, p.1, q.1, r.1, rfl, rfl, hidle₁, hP₁, hgrows₁, hout₁, hsecond⟩

end Keeps

theorem keeps_true (settings : Settings) (g : Graph) (output : Nat) :
    Keeps settings g output (fun _ => True) (fun _ _ _ => True) (fun _ _ => True) :=
  ⟨fun _ _ _ _ _ h => h, fun _ _ _ _ h => h, fun _ _ _ _ _ _ _ => ⟨trivial, trivial⟩,
    fun _ _ _ _ _ _ _ _ => ⟨trivial, trivial⟩⟩

/-- After the material is generated, nothing is under way. -/
theorem stages_idle (he : Engine.Follows settings g [] e) (hs : s.Idle settings g) (output : Nat) :
    (stages e output s).2.Idle settings g := by
  obtain ⟨_, s₂, _, _, _, -, heq, -, -, -, -, hidle, -⟩ :=
    (keeps_true settings g output).stages (Q := fun _ _ => True)
      (fun _ => keeps_true settings g output) he hs trivial fun _ _ _ => trivial
  rw [heq]
  exact ⟨hidle.takeWriter.sound.record trivial, hidle.active, hidle.context⟩

theorem run_eq {α : Type} (gen : Generator) (x : Eval α) :
    gen.run x = ((x gen.state).1, { gen with state := (x gen.state).2 }) := rfl

theorem generate_eq {gen : Generator} (h : gen.material.findKind? .materialOutput = some output) :
    gen.generate = (.ok (stages gen.evaluator output gen.state).1,
      { gen with state := (stages gen.evaluator output gen.state).2 }) := by
  unfold generate
  rw [h]
  dsimp only
  rw [run_eq]

theorem generate_none {gen : Generator} (h : gen.material.findKind? .materialOutput = none) :
    gen.generate = (.error .missingOutputNode, gen) := by
  unfold generate
  rw [h]

theorem generate_ok {gen : Generator} {m : Material} (h : gen.generate.1 = .ok m) :
    ∃ output, gen.material.findKind? .materialOutput = some output ∧
      (stages gen.evaluator output gen.state).1 = m := by
  cases ho : gen.material.findKind? .materialOutput with
  | none =>
    rw [generate_none ho] at h
    cases h
  | some output =>
    rw [generate_eq ho] at h
    exact ⟨output, rfl, Except.ok.inj h⟩

theorem generate_ok_of_map {gen : Generator} {α : Type} {f : Material → α} {a : α}
    (h : gen.generate.1.toOption.map f = some a) : ∃ m, gen.generate.1 = .ok m ∧ f m = a := by
  cases hm : gen.generate.1 with
  | error e =>
    rw [hm] at h
    cases h
  | ok m =>
    rw [hm] at h
    exact ⟨m, rfl, Option.some.inj h⟩

/-- What holds at first, is kept by every evaluation and carries over to the next stage holds where
the stages of a generated material end. -/
theorem generate_keeps {g : Graph} {domain : Domain} {resolver : Resolver} {config : Config}
    {requests : List Request} {m : Material} {settings : Settings} {P : State → Prop}
    {V : Nat → Parameter → Value Local → State → Prop} {U : Value Local → State → Prop}
    (hsettings : settings = ((new g domain resolver).withConfig config).settings)
    (h0 : P (.ofGraph g))
    (hrequest : ∀ (request : Request) s v s', s.Idle settings g →
      Runs settings (request.task s) s v s' → P s → P s')
    (hk : ∀ output, Keeps settings g output P (V output) U)
    (hpixel : ∀ s, P s → P (s.beginStage .pixel))
    (hvertex : ∀ s, P s → P (s.takeWriter.2.beginStage .vertex))
    (hm : (((new g domain resolver).withConfig config).after requests).generate.1 = .ok m) :
    ∃ output s₁ s₂ pixel vertex interpolants, g.findKind? .materialOutput = some output ∧
      (((new g domain resolver).withConfig config).after requests).written =
        some (s₁.writer, s₂.writer) ∧
      m = ⟨.ofWriter s₁.writer pixel, .ofWriter s₂.writer (vertex ++ interpolants), s₂.slots.length,
        s₂.textures, s₂.usage, s₂.diagnostics⟩ ∧
      P s₁ ∧ s₁.stage = .pixel ∧ Outputs (V output) .pixel s₁ pixel ∧
      P s₂ ∧ s₂.stage = .vertex ∧ Outputs (V output) .vertex s₂ vertex ∧
      (∀ o ∈ interpolants, U o.value s₂) ∧ s₁.diagnostics <+: s₂.diagnostics := by
  subst hsettings
  obtain ⟨hset, hmat, hidle, hP⟩ :=
    after_induction P hrequest (idle_new g domain resolver config) h0 requests
  obtain ⟨output, ho, rfl⟩ := generate_ok hm
  have he := follows_evaluator (((new g domain resolver).withConfig config).after requests)
  have ho' := ho
  rw [hmat] at ho'
  rw [hset, hmat] at he
  obtain ⟨s₁, s₂, pixel, vertex, interpolants, hw, heq, -, hP₁, hg₁, hout₁, -, hP₂, hg₂, hout₂,
    hint⟩ := (hk output).stages (fun _ => hk output) he hidle (hpixel _ hP) fun s _ => hvertex s
  refine ⟨output, s₁, s₂, pixel, vertex, interpolants, ho', ?_, ?_, hP₁, hg₁.stage, hout₁,
    hP₂, hg₂.stage, hout₂, hint, hg₂.diagnostics⟩
  · rw [written, ho]
    exact congrArg some hw
  · rw [heq]

theorem generate_idle {gen : Generator} (h : gen.state.Idle gen.settings gen.material) :
    gen.generate.2.state.Idle gen.settings gen.material := by
  cases ho : gen.material.findKind? .materialOutput with
  | none =>
    rw [generate_none ho]
    exact h
  | some output =>
    have hidle := stages_idle gen.follows_evaluator h output
    rw [generate_eq ho]
    generalize stages gen.evaluator output gen.state = p at hidle ⊢
    exact hidle

end Generator

/-! ### A material with a call -/

/-- The node with one of its input boxes fed. -/
def Node.fed (n : Node) (id : BoxId) (c : Connection) : Node :=
  { n with boxes := Graph.connectBox id c n.boxes }

/-- A function that adds its argument to itself. -/
def doubling : MaterialFunction where
  id := ⟨7⟩
  graph := ⟨[.ofKind 1 .functionInput [], ((Node.ofKind 2 .add []).fed 0 ⟨0, 0⟩).fed 1 ⟨0, 0⟩,
    (Node.ofKind 3 .functionOutput []).fed 0 ⟨1, 2⟩]⟩
  inputs := [1]
  outputs := [3]

/-- Its color is twice the vector to the camera. -/
def doubled : Graph :=
  ⟨[(Node.ofKind 1 .materialOutput []).fed 0 ⟨1, 16⟩,
    (Node.ofKind 2 .materialFunction [.asset doubling.id]).fed 0 ⟨2, 0⟩,
    .ofKind 3 .cameraVector []]⟩

end ShaderGraph
