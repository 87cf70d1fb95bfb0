import ShaderGraph.Proofs.Construction

/-! Connecting two boxes. Six things are checked one after the other, and any number of them can be
wrong at once, also on a node that is to feed itself. The first one that is wrong decides the error,
and then the graph stays as it is; if none is, one box changes, the first of its number. -/

namespace ShaderGraph

namespace Graph

/-- `Fault g source output target input k e`: the check number `k` of a connection fails, whatever
the others do, and its error is `e`. -/
inductive Fault (g : Graph) (source : UInt64) (output : BoxId) (target : UInt64) (input : BoxId) :
    Nat → BuildError → Prop
  | unknownSource (h : g.node? source.toNat = none) :
      Fault g source output target input 0 (.unknownIndex source)
  | missingOutput {n} (hn : g.node? source.toNat = some n) (hb : n.box? output = none) :
      Fault g source output target input 1 (.unknownBox n.id output)
  | notAnOutput {n b} (hn : g.node? source.toNat = some n) (hb : n.box? output = some b)
      (hd : b.direction ≠ .output) :
      Fault g source output target input 1 (.notAnOutput n.id output)
  | unknownTarget (h : g.node? target.toNat = none) :
      Fault g source output target input 2 (.unknownIndex target)
  | missingInput {n} (hn : g.node? target.toNat = some n) (hb : n.box? input = none) :
      Fault g source output target input 3 (.unknownBox n.id input)
  | notAnInput {n b} (hn : g.node? target.toNat = some n) (hb : n.box? input = some b)
      (hd : b.direction ≠ .input) :
      Fault g source output target input 4 (.notAnInput n.id input)
  | alreadyConnected {n b} (hn : g.node? target.toNat = some n) (hb : n.box? input = some b)
      (hc : b.connection ≠ none) :
      Fault g source output target input 5 (.alreadyConnected n.id input)

/-- The first check that fails has the given error. -/
def FirstFault (g : Graph) (source : UInt64) (output : BoxId) (target : UInt64) (input : BoxId)
    (e : BuildError) : Prop :=
  ∃ k, Fault g source output target input k e ∧
    ∀ j < k, ∀ e', ¬Fault g source output target input j e'

variable {g g' : Graph} {source target : UInt64} {output input : BoxId} {n : Node}
  {e e' : BuildError} {k : Nat}

/-- A check has one error. -/
theorem Fault.unique (h : Fault g source output target input k e)
    (h' : Fault g source output target input k e') : e' = e := by
  cases h <;> cases h' <;> simp_all

theorem FirstFault.unique (h : FirstFault g source output target input e)
    (h' : FirstFault g source output target input e') : e' = e := by
  obtain ⟨k, hk, hfirst⟩ := h
  obtain ⟨k', hk', hfirst'⟩ := h'
  rcases Nat.lt_trichotomy k k' with hlt | rfl | hlt
  · exact absurd hk (hfirst' k hlt e)
  · exact hk.unique hk'
  · exact absurd hk' (hfirst k' hlt e')

/-! ### The two sides of a connection -/

theorem checkOutput_error (h : checkOutput n output = .error e) :
    (n.box? output = none ∧ e = .unknownBox n.id output) ∨
      ∃ b, n.box? output = some b ∧ b.direction ≠ .output ∧ e = .notAnOutput n.id output := by
  unfold checkOutput at h
  cases hb : n.box? output with
  | none => exact .inl ⟨rfl, by simpa [hb] using h.symm⟩
  | some b =>
    rw [hb] at h
    dsimp only at h
    split at h
    next hd => exact .inr ⟨b, rfl, hd, (Except.error.inj h).symm⟩
    next => cases h

theorem checkInput_error (h : checkInput n input = .error e) :
    (n.box? input = none ∧ e = .unknownBox n.id input) ∨
      (∃ b, n.box? input = some b ∧ b.direction ≠ .input ∧ e = .notAnInput n.id input) ∨
      ∃ b, n.box? input = some b ∧ b.direction = .input ∧ b.connection ≠ none ∧
        e = .alreadyConnected n.id input := by
  unfold checkInput at h
  cases hb : n.box? input with
  | none => exact .inl ⟨rfl, by simpa [hb] using h.symm⟩
  | some b =>
    rw [hb] at h
    dsimp only at h
    split at h
    next hd => exact .inr (.inl ⟨b, rfl, hd, (Except.error.inj h).symm⟩)
    next hd =>
      split at h
      next hc =>
        refine .inr (.inr ⟨b, rfl, not_not.mp hd, ?_, (Except.error.inj h).symm⟩)
        exact Option.isSome_iff_ne_none.mp hc
      next => cases h

/-- Where a connection fails: at the producer, for want of a consumer, or at the consumer. -/
theorem connect_error (h : g.connect source output target input = .error e) :
    (g.node? source.toNat = none ∧ e = .unknownIndex source) ∨
      ∃ producer, g.node? source.toNat = some producer ∧
        (checkOutput producer output = .error e ∨
          checkOutput producer output = .ok () ∧
            ((g.node? target.toNat = none ∧ e = .unknownIndex target) ∨
              ∃ consumer, g.node? target.toNat = some consumer ∧
                checkInput consumer input = .error e)) := by
  unfold connect at h
  cases hp : g.node? source.toNat with
  | none =>
    rw [hp] at h
    exact .inl ⟨rfl, (Except.error.inj h).symm⟩
  | some producer =>
    refine .inr ⟨producer, rfl, ?_⟩
    cases ho : checkOutput producer output with
    | error e' =>
      simp only [hp, ho, bind, Except.bind, Except.error.injEq] at h
      exact .inl (congrArg Except.error h)
    | ok =>
      refine .inr ⟨rfl, ?_⟩
      cases hc : g.node? target.toNat with
      | none =>
        simp only [hp, ho, hc, bind, Except.bind, Except.error.injEq] at h
        exact .inl ⟨rfl, h.symm⟩
      | some consumer =>
        refine .inr ⟨consumer, rfl, ?_⟩
        cases hi : checkInput consumer input with
        | error e' =>
          simp only [hp, ho, hc, hi, bind, Except.bind, Except.error.injEq] at h
          exact congrArg Except.error h
        | ok => simp [hp, ho, hc, hi, bind, Except.bind, pure, Except.pure] at h

/-! ### Which error -/

/-- A connection that fails does so with the error of the first check that fails. -/
theorem firstFault_of_connect (h : g.connect source output target input = .error e) :
    FirstFault g source output target input e := by
  -- in each case the checks before are passed, as what is known then says
  rcases connect_error h with ⟨hp, rfl⟩ | ⟨producer, hp, ho | ⟨ho, hside⟩⟩
  · exact ⟨0, .unknownSource hp, fun j hj => absurd hj j.not_lt_zero⟩
  · rcases checkOutput_error ho with ⟨hb, rfl⟩ | ⟨b, hb, hd, rfl⟩
    · refine ⟨1, .missingOutput hp hb, fun j hj e' hf => ?_⟩
      cases hf <;> simp_all
    · refine ⟨1, .notAnOutput hp hb hd, fun j hj e' hf => ?_⟩
      cases hf <;> simp_all
  obtain ⟨b, hb, hd⟩ := checkOutput_ok ho
  rcases hside with ⟨hc, rfl⟩ | ⟨consumer, hc, hi⟩
  · refine ⟨2, .unknownTarget hc, fun j hj e' hf => ?_⟩
    cases hf <;> simp_all
  rcases checkInput_error hi with ⟨hb', rfl⟩ | ⟨b', hb', hd', rfl⟩ | ⟨b', hb', hd', hfed, rfl⟩
  · refine ⟨3, .missingInput hc hb', fun j hj e' hf => ?_⟩
    cases hf <;> simp_all
  · refine ⟨4, .notAnInput hc hb' hd', fun j hj e' hf => ?_⟩
    cases hf <;> simp_all
  · refine ⟨5, .alreadyConnected hc hb' hfed, fun j hj e' hf => ?_⟩
    cases hf <;> simp_all

/-- A connection that succeeds passes all checks. -/
theorem not_fault_of_connect (h : g.connect source output target input = .ok g') :
    ¬Fault g source output target input k e := by
  obtain ⟨producer, consumer, b, b', hp, hb, hd, hc, hb', hd', hfree, -⟩ := connect_ok h
  intro hf
  cases hf <;> simp_all

theorem connect_eq_error_iff :
    g.connect source output target input = .error e ↔
      FirstFault g source output target input e := by
  refine ⟨firstFault_of_connect, fun h => ?_⟩
  cases hc : g.connect source output target input with
  | error e' => rw [h.unique (firstFault_of_connect hc)]
  | ok g' =>
    obtain ⟨k, hk, -⟩ := h
    exact absurd hk (not_fault_of_connect hc)

/-! ### What changes -/

theorem connectBox_eq_set {c : Connection} {boxes : List Box} {b : Box} {p : Nat}
    (hp : boxes.findIdx? (·.id == input) = some p) (hb : boxes[p]? = some b) :
    connectBox input c boxes = boxes.set p { b with connection := some c } := by
  induction boxes generalizing p with
  | nil => cases hb
  | cons b₁ boxes ih =>
    rw [List.findIdx?_cons] at hp
    rw [connectBox]
    split at hp
    next hid =>
      cases hp
      obtain rfl : b₁ = b := Option.some.inj hb
      rw [if_pos hid, List.set_cons_zero]
    next hid =>
      obtain ⟨q, hq, rfl⟩ := Option.map_eq_some_iff.mp hp
      rw [if_neg hid, List.set_cons_succ, ih hq (by simpa using hb)]

/-- A connection that succeeds changes the connection of one box. -/
theorem connect_ok_set (h : g.connect source output target input = .ok g') :
    ∃ n p b, g.nodes[target.toNat]? = some n ∧ n.boxes.findIdx? (·.id == input) = some p ∧
      n.boxes[p]? = some b ∧
      g' = ⟨g.nodes.set target.toNat
        { n with boxes := n.boxes.set p { b with connection := some ⟨source, output⟩ } }⟩ := by
  obtain ⟨-, n, -, b, -, -, -, hn, hb, -, -, rfl⟩ := connect_ok h
  have hb : n.boxes.find? (·.id == input) = some b := hb
  obtain ⟨p, hp⟩ : ∃ p, n.boxes.findIdx? (·.id == input) = some p := by
    rw [← Option.isSome_iff_exists, List.findIdx?_isSome, List.any_eq_true]
    exact ⟨b, List.mem_of_find?_eq_some hb, List.find?_some (p := fun b : Box => b.id == input) hb⟩
  have hpb : n.boxes[p]? = some b := by
    rw [List.find?_eq_bind_findIdx?_getElem?, hp] at hb
    exact hb
  have hn : g.nodes[target.toNat]? = some n := hn
  refine ⟨n, p, b, hn, hp, hpb, ?_⟩
  rw [List.modify_eq_set_getElem?, hn, ← connectBox_eq_set hp hpb]
  rfl

end Graph

/-- A connection succeeds just if the first box of its number at the producer is an output and that
at the consumer is an input that nothing feeds yet. Then nothing changes but the connection of that
input. It fails with the error of the first check that fails, and then nothing changes at all. -/
theorem connection_exact (g : Graph) (source target : UInt64) (output input : BoxId) :
    let result := g.connect source output target input
    let left := Graph.build [.connect source output target input] g
    ((∃ g', result = .ok g') ↔
      (∃ n b, g.node? source.toNat = some n ∧ n.box? output = some b ∧ b.direction = .output) ∧
      ∃ n b, g.node? target.toNat = some n ∧ n.box? input = some b ∧ b.direction = .input ∧
        b.connection = none) ∧
    (∀ g', result = .ok g' → left = g' ∧
      ∃ n p b, g.nodes[target.toNat]? = some n ∧ n.boxes.findIdx? (·.id == input) = some p ∧
        n.boxes[p]? = some b ∧
        g' = ⟨g.nodes.set target.toNat
          { n with boxes := n.boxes.set p { b with connection := some ⟨source, output⟩ } }⟩) ∧
    ∀ e, (result = .error e ↔ g.FirstFault source output target input e) ∧
      (result = .error e → left = g) := by
  intro result left
  have hleft : left = result.toOption.getD g := rfl
  refine ⟨⟨?_, ?_⟩, ?_, fun e => ⟨Graph.connect_eq_error_iff, fun he => ?_⟩⟩
  · rintro ⟨g', hok⟩
    obtain ⟨producer, consumer, b, b', hp, hb, hd, hc, hb', hd', hfree, -⟩ := Graph.connect_ok hok
    exact ⟨⟨producer, b, hp, hb, hd⟩, consumer, b', hc, hb', hd', hfree⟩
  · rintro ⟨⟨producer, b, hp, hb, hd⟩, consumer, b', hc, hb', hd', hfree⟩
    cases hr : result with
    | ok g' => exact ⟨g', rfl⟩
    | error e =>
      -- whichever check is said to fail is passed
      obtain ⟨k, hf, -⟩ := Graph.firstFault_of_connect hr
      cases hf <;> simp_all
  · intro g' hok
    refine ⟨?_, Graph.connect_ok_set hok⟩
    rw [hleft, hok]
    rfl
  · rw [hleft, he]
    rfl

end ShaderGraph
