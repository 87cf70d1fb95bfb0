import ShaderGraph.Shader.Writer
import ShaderGraph.Template
import Mathlib.Data.List.Chain

/-! Identifiers in text. Text that is put together where no identifier is cut or continued has the
identifiers of its parts. -/

namespace ShaderGraph

namespace Template

/-- Between the two texts an identifier neither goes on nor could. -/
def Separated (a b : List Char) : Prop :=
  ∀ x ∈ a.getLast?, ∀ y ∈ b.head?, isIdentifierChar x = true → isIdentifierChar y = false

theorem separated_of_last {a b : List Char} (h : ∀ x ∈ a.getLast?, isIdentifierChar x = false) :
    Separated a b := by
  intro x hx y _ hi
  simp [h x hx] at hi

theorem separated_of_head {a b : List Char} (h : ∀ y ∈ b.head?, isIdentifierChar y = false) :
    Separated a b :=
  fun _ _ y hy _ => h y hy

/-- Whether the text can be put in front of any other. -/
def endsApart (text : List Char) : Bool := text.getLast?.all (!isIdentifierChar ·)

/-- Whether the text can be put after any other. -/
def beginsApart (text : List Char) : Bool := text.head?.all (!isIdentifierChar ·)

theorem separated_of_endsApart {a : List Char} (h : endsApart a = true) (b : List Char) :
    Separated a b := by
  refine separated_of_last fun x hx => ?_
  rw [endsApart, Option.mem_def.mp hx] at h
  simpa using h

theorem separated_of_beginsApart {b : List Char} (h : beginsApart b = true) (a : List Char) :
    Separated a b := by
  refine separated_of_head fun y hy => ?_
  rw [beginsApart, Option.mem_def.mp hy] at h
  simpa using h

/-- The first token starts with the first character. -/
theorem tokens_cons (c : Char) (cs : List Char) :
    ∃ ds rest, tokens (c :: cs) = (c :: ds) :: rest := by
  rw [tokens]
  split
  · split
    · exact ⟨_, _, rfl⟩
    · exact ⟨_, _, rfl⟩
  · exact ⟨_, _, rfl⟩

theorem tokens_cons_of_not {c : Char} {cs : List Char} (h : Separated [c] cs) :
    tokens (c :: cs) = [c] :: tokens cs := by
  cases cs with
  | nil => rfl
  | cons d cs =>
    obtain ⟨ds, rest, ht⟩ := tokens_cons d cs
    rw [tokens, ht]
    by_cases hc : isIdentifierChar c = true
    · have hd := h c rfl d rfl hc
      simp [hd]
    · simp [hc]

theorem tokens_append {a b : List Char} (h : Separated a b) :
    tokens (a ++ b) = tokens a ++ tokens b := by
  induction a with
  | nil => rfl
  | cons c cs ih =>
    cases cs with
    | nil => exact tokens_cons_of_not h
    | cons d cs =>
      have hs : Separated (d :: cs) b := by
        intro x hx
        exact h x (by simpa [List.getLast?_cons] using hx)
      obtain ⟨ds, rest, ht⟩ := tokens_cons d cs
      have ih := ih hs
      rw [ht] at ih
      rw [List.cons_append, tokens, tokens, ih, ht]
      simp only [List.cons_append]
      split <;> rfl

theorem flatten_tokens (cs : List Char) : (tokens cs).flatten = cs := by
  induction cs with
  | nil => rfl
  | cons c cs ih =>
    rw [tokens]
    split
    next d ds rest ht =>
      rw [ht] at ih
      split <;> simpa using ih
    next rest hrest => simpa using ih

theorem mem_of_mem_token {cs token : List Char} {c : Char} (ht : token ∈ tokens cs)
    (hc : c ∈ token) : c ∈ cs := by
  rw [← flatten_tokens cs]
  exact List.mem_flatten.mpr ⟨token, ht, hc⟩

/-- An identifier is one token. -/
theorem tokens_identifier {cs : List Char} (hne : cs ≠ [])
    (h : ∀ c ∈ cs, isIdentifierChar c = true) : tokens cs = [cs] := by
  induction cs with
  | nil => contradiction
  | cons c cs ih =>
    cases cs with
    | nil => rfl
    | cons d cs =>
      rw [tokens, ih (by simp) (fun x hx => h x (List.mem_cons_of_mem _ hx))]
      simp [h c (by simp), h d (by simp)]

/-- No identifier goes on from one token to the next. -/
theorem tokens_separated (cs : List Char) : (tokens cs).IsChain Separated := by
  induction cs with
  | nil => exact .nil
  | cons c cs ih =>
    rw [tokens]
    split
    next d ds rest ht =>
      rw [ht] at ih
      split
      next hi =>
        refine List.isChain_cons.mpr ⟨fun t htok => ?_, (List.isChain_cons.mp ih).2⟩
        intro x hx
        exact (List.isChain_cons.mp ih).1 t htok x (by simpa [List.getLast?_cons] using hx)
      next hi =>
        refine List.isChain_cons.mpr ⟨fun t htok => ?_, ih⟩
        obtain rfl : d :: ds = t := by simpa using htok
        intro x hx y hy hcx
        simp only [List.getLast?_singleton, Option.mem_some_iff, List.head?_cons] at hx hy
        subst hx hy
        simpa [hcx] using hi
    next rest hrest =>
      refine List.isChain_cons.mpr ⟨fun t htok => ?_, ih⟩
      cases hr : tokens cs with
      | nil => simp [hr] at htok
      | cons token rest' =>
        cases token with
        | cons d ds => exact absurd hr (hrest d ds rest')
        | nil =>
          cases cs with
          | nil => simp [tokens] at hr
          | cons d cs =>
            obtain ⟨ds, rest'', ht⟩ := tokens_cons d cs
            simp [ht] at hr

/-- A token is an identifier or a single character. -/
theorem mem_tokens {cs token : List Char} (h : token ∈ tokens cs) :
    token ≠ [] ∧ ((∃ c, token = [c]) ∨ ∀ c ∈ token, isIdentifierChar c = true) := by
  induction cs generalizing token with
  | nil => simp [tokens] at h
  | cons c cs ih =>
    rw [tokens] at h
    split at h
    next d ds rest hr =>
      split at h
      next hcd =>
        rw [Bool.and_eq_true] at hcd
        rcases List.mem_cons.mp h with rfl | h
        · refine ⟨by simp, .inr fun x hx => ?_⟩
          rcases List.mem_cons.mp hx with rfl | hx
          · exact hcd.1
          · have hmem : d :: ds ∈ tokens cs := by simp [hr]
            rcases (ih hmem).2 with ⟨y, hy⟩ | hall
            · obtain ⟨rfl, rfl⟩ := List.cons.inj hy
              obtain rfl : x = d := by simpa using hx
              exact hcd.2
            · exact hall x hx
        · exact ih (by simp [hr, h])
      next =>
        rcases List.mem_cons.mp h with rfl | h
        · exact ⟨by simp, .inl ⟨c, rfl⟩⟩
        · exact ih (by rw [hr]; exact h)
    next =>
      rcases List.mem_cons.mp h with rfl | h
      · exact ⟨by simp, .inl ⟨c, rfl⟩⟩
      · exact ih h

end Template

namespace Local

open Template

/-- Whether an identifier has the form of a name of a local: `local` followed by a number. -/
def isName (token : List Char) : Bool :=
  token.take 5 == ['l', 'o', 'c', 'a', 'l'] && token.drop 5 != [] && (token.drop 5).all Char.isDigit

/-- The names of locals that occur in a text. -/
def namesIn (text : List Char) : List (List Char) := (tokens text).filter isName

/-- No name of a local occurs in the text. -/
def Free (text : List Char) : Prop := namesIn text = []

instance (text : List Char) : Decidable (Free text) := inferInstanceAs (Decidable (_ = _))

theorem namesIn_append {a b : List Char} (h : Separated a b) :
    namesIn (a ++ b) = namesIn a ++ namesIn b := by
  rw [namesIn, tokens_append h, List.filter_append]
  rfl

theorem Free.namesIn_append {a b : List Char} (h : Free a) (hs : Separated a b) :
    namesIn (a ++ b) = namesIn b := by
  rw [Local.namesIn_append hs, h]
  rfl

theorem namesIn_append_free {a b : List Char} (h : Free b) (hs : Separated a b) :
    namesIn (a ++ b) = namesIn a := by
  rw [namesIn_append hs, h, List.append_nil]

theorem Free.append {a b : List Char} (ha : Free a) (hb : Free b) (h : Separated a b) :
    Free (a ++ b) :=
  (ha.namesIn_append h).trans hb

/-- Text between two marks, neither of which has names or goes on with its identifiers. -/
theorem namesIn_between {left right : List Char} (text : List Char) (hl : Free left)
    (hr : Free right) (hends : endsApart left = true) (hbegins : beginsApart right = true) :
    namesIn (left ++ (text ++ right)) = namesIn text := by
  rw [hl.namesIn_append (separated_of_endsApart hends _),
    namesIn_append_free hr (separated_of_beginsApart hbegins _)]

/-- A name contains the letter `l`, so text without it has none. -/
theorem free_of_not_mem {cs : List Char} (h : 'l' ∉ cs) : Free cs := by
  refine List.filter_eq_nil_iff.mpr fun token ht hn => h (mem_of_mem_token ht ?_)
  simp only [isName, Bool.and_eq_true, beq_iff_eq] at hn
  exact List.mem_of_mem_take (i := 5) (by simp [hn.1.1])

theorem Free.token {text token : List Char} (h : Free text) (ht : token ∈ tokens text) :
    Free token := by
  have hname : isName token = false := by simpa using List.filter_eq_nil_iff.mp h token ht
  obtain ⟨hne, ⟨c, rfl⟩ | hi⟩ := mem_tokens ht
  · simpa [Free, namesIn, tokens] using hname
  · simpa [Free, namesIn, tokens_identifier hne hi] using hname

theorem name_toList (n : Local) :
    (name n).toList = ['l', 'o', 'c', 'a', 'l'] ++ Nat.toDigits 10 n := by
  simp only [name, toString, String.toList_append, Nat.toList_repr]
  rfl

theorem isDigit_of_mem_digits {n : Nat} {c : Char} (h : c ∈ Nat.toDigits 10 n) :
    c.isDigit = true :=
  Nat.isDigit_of_mem_toDigits (by decide) (by decide) h

theorem isIdentifierChar_of_isDigit {c : Char} (h : c.isDigit = true) :
    isIdentifierChar c = true := by
  simp [isIdentifierChar, Char.isAlphanum, h]

theorem isName_name (n : Local) : isName (name n).toList = true := by
  rw [name_toList]
  have hd : (Nat.toDigits 10 n).all Char.isDigit = true :=
    List.all_eq_true.mpr fun c hc => isDigit_of_mem_digits hc
  simp [isName, hd, Nat.toDigits_ne_nil]

/-- The name of a local is a token, and the only name in it. -/
theorem namesIn_name (n : Local) : namesIn (name n).toList = [(name n).toList] := by
  have hi : ∀ c ∈ (name n).toList, isIdentifierChar c = true := by
    rw [name_toList]
    intro c hc
    rcases List.mem_append.mp hc with hc | hc
    · have hletters : ['l', 'o', 'c', 'a', 'l'].all isIdentifierChar = true := by decide
      exact List.all_eq_true.mp hletters c hc
    · exact isIdentifierChar_of_isDigit (isDigit_of_mem_digits hc)
  rw [namesIn, tokens_identifier (by simp [name_toList]) hi]
  simp [isName_name]

end Local

end ShaderGraph
