import ShaderGraph.Proofs.Parametricity

/-! Templates keep their text. The placeholders of a template are the maximal runs of identifier
characters that name a slot; everything else is text, kept in place and in as few segments as
possible. What is put in the place of a placeholder is not looked at. -/

namespace ShaderGraph

namespace Template

/-! ### Maximal runs -/

/-- The text in pieces: its runs of identifier characters, as long as possible, and its other
characters one by one. -/
structure MaximalRuns (text : List Char) (pieces : List (List Char)) : Prop where
  flatten : pieces.flatten = text
  piece : ∀ p ∈ pieces, (∃ c, p = [c] ∧ isIdentifierChar c = false) ∨
    p ≠ [] ∧ ∀ c ∈ p, isIdentifierChar c = true
  maximal : pieces.IsChain Separated

theorem maximalRuns_tokens (text : List Char) : MaximalRuns text (tokens text) where
  flatten := flatten_tokens text
  piece p hp := by
    obtain ⟨hne, ⟨c, rfl⟩ | hall⟩ := mem_tokens hp
    · cases hc : isIdentifierChar c with
      | false => exact .inl ⟨c, rfl, hc⟩
      | true => exact .inr ⟨hne, by simpa using hc⟩
    · exact .inr ⟨hne, hall⟩
  maximal := tokens_separated text

/-- A text has only one such cut. -/
theorem MaximalRuns.eq_tokens {text : List Char} {pieces : List (List Char)}
    (h : MaximalRuns text pieces) : pieces = tokens text := by
  obtain ⟨rfl, hpiece, hmaximal⟩ := h
  induction pieces with
  | nil => rfl
  | cons p pieces ih =>
    obtain ⟨hp, hpieces⟩ := List.forall_mem_cons.mp hpiece
    obtain ⟨hnext, hrest⟩ := List.isChain_cons.mp hmaximal
    have hsingle : tokens p = [p] := by
      rcases hp with ⟨c, rfl, -⟩ | ⟨hne, hall⟩
      · rfl
      · exact tokens_identifier hne hall
    have hseparated : Separated p pieces.flatten := by
      cases pieces with
      | nil => intro x _ y hy; cases hy
      | cons q pieces =>
        obtain ⟨d, ds, rfl⟩ : ∃ d ds, q = d :: ds := by
          rcases hpieces q List.mem_cons_self with ⟨d, rfl, -⟩ | ⟨hne, -⟩
          · exact ⟨d, [], rfl⟩
          · exact List.exists_cons_of_ne_nil hne
        exact hnext (d :: ds) rfl
    rw [List.flatten_cons, tokens_append hseparated, hsingle, ← ih hpieces hrest]
    rfl

/-! ### Placeholders -/

theorem slot?_eq_some {limit slot : Nat} {digits : List Char} (h : slot? limit digits = some slot)
    (hl : limit ≤ 10) : slot < limit ∧ digits = [Nat.digitChar slot] := by
  obtain ⟨c, rfl, hc⟩ := slot?_some h
  have hslot : c.toNat - 48 < limit ∧ c.toNat - 48 = slot := by simpa [slot?, hc] using h
  obtain ⟨hlt, rfl⟩ := hslot
  have hdigit : 48 ≤ c.toNat := by
    have hrange : 48 ≤ c.val ∧ c.val ≤ 57 := by simpa [Char.isDigit] using hc
    exact hrange.1
  refine ⟨hlt, congrArg (fun c => [c]) (Char.toNat_inj.mp ?_)⟩
  rw [Nat.toNat_digitChar_of_lt_ten (by omega)]
  omega

/-- The placeholders are the names of the slots. -/
theorem placeholder?_eq_some_iff {piece : List Char} {segment : Segment} :
    placeholder? piece = some segment ↔
      (∃ k < 8, segment = .input k ∧ piece = s!"Input{k}".toList) ∨
        ∃ k < 4, segment = .output k ∧ piece = s!"Output{k}".toList := by
  constructor
  · intro h
    unfold placeholder? at h
    split at h
    next digits =>
      obtain ⟨k, hk, rfl⟩ := Option.map_eq_some_iff.mp h
      obtain ⟨hlt, rfl⟩ := slot?_eq_some hk (by decide)
      refine .inl ⟨k, hlt, rfl, ?_⟩
      simp [toString, Nat.toDigits_of_lt_base (show k < 10 from Nat.lt_trans hlt (by decide))]
    next digits =>
      obtain ⟨k, hk, rfl⟩ := Option.map_eq_some_iff.mp h
      obtain ⟨hlt, rfl⟩ := slot?_eq_some hk (by decide)
      refine .inr ⟨k, hlt, rfl, ?_⟩
      simp [toString, Nat.toDigits_of_lt_base (show k < 10 from Nat.lt_trans hlt (by decide))]
    next => cases h
  · have hinputs : (List.range 8).all (fun k =>
        placeholder? s!"Input{k}".toList == some (.input k)) = true := by decide +kernel
    have houtputs : (List.range 4).all (fun k =>
        placeholder? s!"Output{k}".toList == some (.output k)) = true := by decide +kernel
    rintro (⟨k, hk, rfl, rfl⟩ | ⟨k, hk, rfl, rfl⟩)
    · simpa using List.all_eq_true.mp hinputs k (List.mem_range.mpr hk)
    · simpa using List.all_eq_true.mp houtputs k (List.mem_range.mpr hk)

variable {ρ : Type}

/-- What stands for the pieces of a text: for the name of a slot what is bound to it, and for all
else, names without a binding included, the piece itself. -/
structure Substitutes (inputs outputs : List (Option (Code ρ))) (code : List Char → Code ρ) :
    Prop where
  input : ∀ k < 8, code s!"Input{k}".toList = inputs[k]?.join.getD (Code.ofString s!"Input{k}")
  output : ∀ k < 4, code s!"Output{k}".toList = outputs[k]?.join.getD (Code.ofString s!"Output{k}")
  other : ∀ piece, (∀ k < 8, piece ≠ s!"Input{k}".toList) →
    (∀ k < 4, piece ≠ s!"Output{k}".toList) → code piece = piece.map .char

theorem bound_eq (bindings : List (Option (Code ρ))) (slot : Nat) (name : String) :
    bound bindings slot name = bindings[slot]?.join.getD (Code.ofString s!"{name}{slot}") := by
  unfold bound
  split
  next code h => rw [h]; rfl
  next h =>
    rcases hb : bindings[slot]? with _ | _ | code
    · rfl
    · rfl
    · exact absurd hb (h code)

theorem substitutes_tokenCode (inputs outputs : List (Option (Code ρ))) :
    Substitutes inputs outputs (tokenCode inputs outputs) where
  input k hk := by
    have hp := placeholder?_eq_some_iff.mpr (.inl ⟨k, hk, rfl, rfl⟩)
    rw [tokenCode, hp]
    exact bound_eq inputs k "Input"
  output k hk := by
    have hp := placeholder?_eq_some_iff.mpr (.inr ⟨k, hk, rfl, rfl⟩)
    rw [tokenCode, hp]
    exact bound_eq outputs k "Output"
  other piece hin hout := by
    have hp : placeholder? piece = none := by
      refine Option.eq_none_iff_forall_ne_some.mpr fun segment h => ?_
      rcases placeholder?_eq_some_iff.mp h with ⟨k, hk, -, he⟩ | ⟨k, hk, -, he⟩
      · exact hin k hk he
      · exact hout k hk he
    rw [tokenCode, hp]
    simp [Code.ofString]

/-! ### Segments -/

def Segment.isText : Segment → Bool
  | text _ => true
  | _ => false

/-- Text is in as few segments as possible, and every slot is one of a box. -/
structure Canonical (segments : List Segment) : Prop where
  nonempty : .text "" ∉ segments
  apart : segments.IsChain fun a b => ¬(a.isText = true ∧ b.isText = true)
  inputs : ∀ k, .input k ∈ segments → k < 8
  outputs : ∀ k, .output k ∈ segments → k < 4

theorem Canonical.cons {segment : Segment} {segments : List Segment} (h : Canonical segments)
    (hne : segment ≠ .text "")
    (hapart : ∀ s ∈ segments.head?, ¬(segment.isText = true ∧ s.isText = true))
    (hin : ∀ k, segment = .input k → k < 8) (hout : ∀ k, segment = .output k → k < 4) :
    Canonical (segment :: segments) where
  nonempty hmem := by
    rcases List.mem_cons.mp hmem with heq | hmem
    · exact hne heq.symm
    · exact h.nonempty hmem
  apart := List.isChain_cons.mpr ⟨hapart, h.apart⟩
  inputs k hmem := by
    rcases List.mem_cons.mp hmem with heq | hmem
    · exact hin k heq.symm
    · exact h.inputs k hmem
  outputs k hmem := by
    rcases List.mem_cons.mp hmem with heq | hmem
    · exact hout k heq.symm
    · exact h.outputs k hmem

theorem Canonical.tail {segment : Segment} {segments : List Segment}
    (h : Canonical (segment :: segments)) : Canonical segments where
  nonempty hmem := h.nonempty (List.mem_cons_of_mem _ hmem)
  apart := (List.isChain_cons.mp h.apart).2
  inputs k hmem := h.inputs k (List.mem_cons_of_mem _ hmem)
  outputs k hmem := h.outputs k (List.mem_cons_of_mem _ hmem)

theorem canonical_ofTokens {pieces : List (List Char)} (h : ∀ p ∈ pieces, p ≠ []) :
    Canonical (ofTokens pieces) := by
  induction pieces with
  | nil => exact ⟨by simp [ofTokens], .nil, by simp [ofTokens], by simp [ofTokens]⟩
  | cons p pieces ih =>
    obtain ⟨hp, hpieces⟩ := List.forall_mem_cons.mp h
    have hrest := ih hpieces
    have htext (s : String) : Segment.text (.ofList p ++ s) ≠ .text "" := by simp [hp]
    rw [ofTokens]
    split
    next segment hs =>
      rcases placeholder?_eq_some_iff.mp hs with ⟨k, hk, rfl, -⟩ | ⟨k, hk, rfl, -⟩
      · exact hrest.cons (by simp) (by simp [Segment.isText]) (by simpa using hk) (by simp)
      · exact hrest.cons (by simp) (by simp [Segment.isText]) (by simp) (by simpa using hk)
    next =>
      split
      next s segments heq =>
        -- the text goes on, so the piece is put before it
        rw [heq] at hrest
        refine hrest.tail.cons (htext s) ?_ (by simp) (by simp)
        exact (List.isChain_cons.mp hrest.apart).1
      next hno =>
        refine hrest.cons (by simpa using htext "") ?_ (by simp) (by simp)
        rintro segment hmem ⟨-, hsegment⟩
        obtain ⟨segments, hsegments⟩ := List.head?_eq_some_iff.mp hmem
        cases segment with
        | text s => exact hno s segments hsegments
        | _ => cases hsegment

/-! ### Faithfulness -/

/-- Without bindings every piece stands for itself. -/
theorem Substitutes.eq_self {code : List Char → Code ρ} (h : Substitutes [] [] code)
    (piece : List Char) : code piece = piece.map .char := by
  by_cases hin : ∃ k < 8, piece = s!"Input{k}".toList
  · obtain ⟨k, hk, rfl⟩ := hin
    exact h.input k hk
  · by_cases hout : ∃ k < 4, piece = s!"Output{k}".toList
    · obtain ⟨k, hk, rfl⟩ := hout
      exact h.output k hk
    · exact h.other piece (fun k hk he => hin ⟨k, hk, he⟩) fun k hk he => hout ⟨k, hk, he⟩

/-- Rendering a template puts what is bound to its slots in the place of their names, wherever these
stand as maximal runs of the text, and changes nothing else. -/
theorem template_faithful (text : String) :
    (parse text).render [] [] = (text : Code ρ) ∧ Canonical (parse text).segments ∧
      ∃ pieces, MaximalRuns text.toList pieces ∧
        (∀ pieces', MaximalRuns text.toList pieces' → pieces' = pieces) ∧
        ∀ inputs outputs : List (Option (Code ρ)), ∃ code, Substitutes inputs outputs code ∧
          (parse text).render inputs outputs = pieces.flatMap code := by
  refine ⟨?_, canonical_ofTokens fun p hp => (mem_tokens hp).1, tokens text.toList,
    maximalRuns_tokens _, fun _ h => h.eq_tokens, fun inputs outputs => ?_⟩
  · have hself : tokenCode [] [] = fun piece => (piece.map .char : Code ρ) :=
      funext (substitutes_tokenCode [] []).eq_self
    rw [render_parse, hself, List.flatMap_def, ← List.map_flatten, flatten_tokens]
    rfl
  · exact ⟨_, substitutes_tokenCode inputs outputs, render_parse inputs outputs text⟩

end Template

end ShaderGraph
