import Mathlib.Algebra.Group.Nat.Defs
import Mathlib.Data.List.Forall2
import ShaderGraph.NodeTable

/-! A table of node kinds is accepted just if it can be read in one way. What a declaration says is
given by the last entries of its attributes, and what is wrong with it by its first fault: that of a
variant, or else a type that is used again. -/

namespace ShaderGraph

namespace NodeTable

/-! ### What a variant declares -/

/-- An item that is understood: a number of 16 bits for the group or the code, or a name. -/
inductive Item.Proper : Item → Prop
  | number {key : String} {n : Nat} (hkey : key ∈ ["group", "op"]) (hn : n < 2 ^ 16) :
    Proper (.entry key (.int n))
  | name (s : String) : Proper (.entry "name" (.str s))

inductive Attribute.Proper : Attribute → Prop
  | node {items : List Item} (h : ∀ i ∈ items, i.Proper) : Proper (.node items)
  | unrelated : Proper .unrelated

def Item.setting? (key : String) : Item → Option Setting
  | entry k s => if k = key then some s else none
  | other => none

def Attribute.items : Attribute → List Item
  | node items => items
  | _ => []

/-- The last value of a key among items. -/
def last? (key : String) (items : List Item) : Option Setting :=
  (items.filterMap (Item.setting? key)).getLast?

namespace Variant

/-- What a variant says about a key, over all of its attributes. -/
def setting? (v : Variant) (key : String) : Option Setting :=
  last? key (v.attributes.flatMap Attribute.items)

structure WellFormed (v : Variant) : Prop where
  unit : v.fields = .unit
  proper : ∀ a ∈ v.attributes, a.Proper
  group : v.setting? "group" ≠ none
  op : v.setting? "op" ≠ none

/-- The group and the code with which a variant ends up. -/
def HasType (v : Variant) (t : NodeTypeId) : Prop :=
  v.setting? "group" = some (.int t.group.toNat) ∧ v.setting? "op" = some (.int t.op.toNat)

instance (v : Variant) (t : NodeTypeId) : Decidable (v.HasType t) :=
  inferInstanceAs (Decidable (_ ∧ _))

/-- The variants do not share a type. -/
def Apart (v w : Variant) : Prop := ∀ t, ¬(v.HasType t ∧ w.HasType t)

/-- The row is what a variant declares. Its name is the words of the identifier unless the variant
gives one. -/
structure Declares (v : Variant) (row : Row) : Prop where
  identifier : row.identifier = v.identifier
  type : v.HasType row.type
  name : v.setting? "name" = some (.str row.name) ∨
    v.setting? "name" = none ∧ row.name = Text.spaced v.identifier

end Variant

/-! ### Faults -/

/-- The first member that is not good has the fault. -/
def FirstFault {α : Type} (good : α → Prop) (fault : α → Error → Prop) (xs : List α) (e : Error) :
    Prop :=
  ∃ before x after, xs = before ++ x :: after ∧ (∀ y ∈ before, good y) ∧ fault x e

def Setting.isInteger : Setting → Bool
  | int _ | negative _ => true
  | _ => false

def Setting.isString : Setting → Bool
  | str _ => true
  | _ => false

inductive Item.Fault : Item → Error → Prop
  | other : Fault .other .entryExpected
  | unknown {key : String} {s : Setting} (hnumber : key ∈ ["group", "op"] → s.isInteger = false)
      (hname : key = "name" → s.isString = false) : Fault (.entry key s) .unknownEntry
  | negative {key : String} (hkey : key ∈ ["group", "op"]) (n : Nat) :
    Fault (.entry key (.negative n)) .invalidDigit
  | tooLarge {key : String} {n : Nat} (hkey : key ∈ ["group", "op"]) (hn : 2 ^ 16 ≤ n) :
    Fault (.entry key (.int n)) .numberTooLarge

inductive Attribute.Fault : Attribute → Error → Prop
  | item {items : List Item} {e : Error} (h : FirstFault Item.Proper Item.Fault items e) :
    Fault (.node items) e
  | noList : Fault .nodeWithoutList .listExpected
  | unreadable (complaint : String) : Fault (.unreadable complaint) (.unreadable complaint)

/-- Fields are looked at first, attributes then, and at last whether anything is missing. -/
inductive Variant.Fault (v : Variant) : Error → Prop
  | payload (h : v.fields ≠ .unit) : Fault v .hasFields
  | unread {e : Error} (hunit : v.fields = .unit)
      (h : FirstFault Attribute.Proper Attribute.Fault v.attributes e) : Fault v e
  | noGroup (hunit : v.fields = .unit) (hproper : ∀ a ∈ v.attributes, a.Proper)
      (h : v.setting? "group" = none) : Fault v .missingGroup
  | noOp (hunit : v.fields = .unit) (hproper : ∀ a ∈ v.attributes, a.Proper)
      (hgroup : v.setting? "group" ≠ none) (h : v.setting? "op" = none) : Fault v .missingOp

/-- The first variant that has the type of an earlier one is reported, and with it that one. -/
def FirstRepetition (variants : List Variant) (e : Error) : Prop :=
  ∃ before w after v t, variants = before ++ w :: after ∧ before.Pairwise Variant.Apart ∧
    v ∈ before ∧ v.HasType t ∧ w.HasType t ∧ e = .duplicate t v.identifier

/-! ### Lists read up to their first fault -/

section FirstFault

variable {α β : Type} {good : α → Prop} {fault : α → Error → Prop} {xs : List α} {e : Error}

/-- A list whose members are good or have a fault is all good or has a first fault. -/
theorem forall_or_firstFault (cover : ∀ x, good x ∨ ∃ e, fault x e) (xs : List α) :
    (∀ x ∈ xs, good x) ∨ ∃ e, FirstFault good fault xs e := by
  induction xs with
  | nil => simp
  | cons x xs ih =>
    rcases cover x with hx | ⟨e, he⟩
    · rcases ih with hxs | ⟨e, before, y, after, rfl, hbefore, hy⟩
      · exact .inl (List.forall_mem_cons.mpr ⟨hx, hxs⟩)
      · exact .inr ⟨e, x :: before, y, after, rfl, List.forall_mem_cons.mpr ⟨hx, hbefore⟩, hy⟩
    · exact .inr ⟨e, [], x, xs, rfl, by simp, he⟩

/-- A fold over good members keeps what each step keeps. -/
theorem foldlM_of_forall {f : β → α → Except Error β} {P : List α → β → Prop}
    (step : ∀ s x, good x → ∃ s', f s x = .ok s' ∧ ∀ done, P done s → P (done ++ [x]) s')
    (s : β) (hxs : ∀ x ∈ xs, good x) :
    ∃ s', xs.foldlM f s = .ok s' ∧ ∀ done, P done s → P (done ++ xs) s' := by
  induction xs generalizing s with
  | nil => exact ⟨s, rfl, by simp⟩
  | cons x xs ih =>
    obtain ⟨hx, hxs⟩ := List.forall_mem_cons.mp hxs
    obtain ⟨s₁, hs₁, h₁⟩ := step s x hx
    obtain ⟨s₂, hs₂, h₂⟩ := ih s₁ hxs
    refine ⟨s₂, ?_, fun done h => by simpa using h₂ _ (h₁ done h)⟩
    rw [List.foldlM_cons, hs₁]
    exact hs₂

/-- A fold ends with the first fault. -/
theorem foldlM_of_firstFault {f : β → α → Except Error β}
    (hgood : ∀ s x, good x → ∃ s', f s x = .ok s') (hfault : ∀ s x e, fault x e → f s x = .error e)
    (h : FirstFault good fault xs e) (s : β) : xs.foldlM f s = .error e := by
  obtain ⟨before, x, after, rfl, hbefore, hx⟩ := h
  obtain ⟨s', hs', -⟩ := foldlM_of_forall (P := fun _ _ => True)
    (fun s y hy => (hgood s y hy).imp fun _ h => ⟨h, fun _ _ => trivial⟩) s hbefore
  rw [List.foldlM_append, hs']
  change (x :: after).foldlM f s' = _
  rw [List.foldlM_cons, hfault s' x e hx]
  rfl

theorem mapM_of_firstFault {f : α → Except Error β} (hgood : ∀ x, good x → ∃ y, f x = .ok y)
    (hfault : ∀ x e, fault x e → f x = .error e) (h : FirstFault good fault xs e) :
    xs.mapM f = .error e := by
  obtain ⟨before, x, after, rfl, hbefore, hx⟩ := h
  induction before with
  | nil =>
    rw [List.nil_append, List.mapM_cons, hfault x e hx]
    rfl
  | cons y before ih =>
    obtain ⟨hy, hbefore⟩ := List.forall_mem_cons.mp hbefore
    obtain ⟨z, hz⟩ := hgood y hy
    rw [List.cons_append, List.mapM_cons, hz]
    change Except.bind _ _ = _
    rw [ih hbefore]
    rfl

end FirstFault

/-! ### Items and attributes -/

theorem Item.proper_or_fault (i : Item) : i.Proper ∨ ∃ e, i.Fault e := by
  cases i with
  | other => exact .inr ⟨_, .other⟩
  | entry key s =>
    by_cases hkey : key ∈ ["group", "op"]
    · have hname : key ≠ "name" := by rintro rfl; simp at hkey
      cases s with
      | int n =>
        rcases Nat.lt_or_ge n (2 ^ 16) with hn | hn
        · exact .inl (.number hkey hn)
        · exact .inr ⟨_, .tooLarge hkey hn⟩
      | negative n => exact .inr ⟨_, .negative hkey n⟩
      | _ => exact .inr ⟨_, .unknown (fun _ => rfl) (fun h => absurd h hname)⟩
    · by_cases hname : key = "name" ∧ s.isString = true
      · obtain ⟨rfl, hs⟩ := hname
        cases s with
        | str s => exact .inl (.name s)
        | _ => cases hs
      · exact .inr ⟨_, .unknown (fun h => absurd h hkey) (by simpa using hname)⟩

theorem last?_append_singleton (key : String) (items : List Item) (i : Item) :
    last? key (items ++ [i]) = (i.setting? key).or (last? key items) := by
  cases h : i.setting? key <;> simp [last?, h]

/-- What has been read is the last value of each key. -/
structure Reading.Holds (r : Reading) (items : List Item) : Prop where
  group : last? "group" items = r.group.map fun n => .int n.toNat
  op : last? "op" items = r.op.map fun n => .int n.toNat
  name : last? "name" items = r.name.map .str

theorem number_of_lt {n : Nat} (h : n < 2 ^ 16) :
    number n = .ok (UInt16.ofNat n) ∧ (UInt16.ofNat n).toNat = n :=
  ⟨if_pos (Nat.le_of_lt_succ h), UInt16.toNat_ofNat_of_lt' h⟩

/-- A proper item is taken over. -/
theorem Reading.item_of_proper (r : Reading) {i : Item} (hi : i.Proper) :
    ∃ r', r.item i = .ok r' ∧ ∀ items, r.Holds items → r'.Holds (items ++ [i]) := by
  cases hi with
  | @number key n hkey hn =>
    obtain ⟨hnumber, hvalue⟩ := number_of_lt hn
    obtain rfl | rfl : key = "group" ∨ key = "op" := by simpa using hkey
    · refine ⟨{ r with group := some (UInt16.ofNat n) }, ?_, fun items h => ⟨?_, ?_, ?_⟩⟩
      · simp [item, hnumber, bind, Except.bind, pure, Except.pure]
      all_goals simp [last?_append_singleton, Item.setting?, hvalue, h.group, h.op, h.name]
    · refine ⟨{ r with op := some (UInt16.ofNat n) }, ?_, fun items h => ⟨?_, ?_, ?_⟩⟩
      · simp [item, hnumber, bind, Except.bind, pure, Except.pure]
      all_goals simp [last?_append_singleton, Item.setting?, hvalue, h.group, h.op, h.name]
  | name s =>
    refine ⟨{ r with name := some s }, rfl, fun items h => ⟨?_, ?_, ?_⟩⟩
    all_goals simp [last?_append_singleton, Item.setting?, h.group, h.op, h.name]

theorem Reading.item_of_fault (r : Reading) {i : Item} {e : Error} (h : i.Fault e) :
    r.item i = .error e := by
  cases h with
  | other => rfl
  | @unknown key s hnumber hname =>
    unfold item
    split <;> simp_all [Setting.isInteger, Setting.isString]
  | @negative key hkey n =>
    obtain rfl | rfl : key = "group" ∨ key = "op" := by simpa using hkey
    all_goals rfl
  | @tooLarge key n hkey hn =>
    have hnumber : number n = .error .numberTooLarge := if_neg (by omega)
    obtain rfl | rfl : key = "group" ∨ key = "op" := by simpa using hkey
    all_goals simp [item, hnumber, bind, Except.bind]

theorem Attribute.proper_or_fault (a : Attribute) : a.Proper ∨ ∃ e, a.Fault e := by
  cases a with
  | node items =>
    rcases forall_or_firstFault Item.proper_or_fault items with h | ⟨e, h⟩
    · exact .inl (.node h)
    · exact .inr ⟨e, .item h⟩
  | nodeWithoutList => exact .inr ⟨_, .noList⟩
  | unreadable complaint => exact .inr ⟨_, .unreadable complaint⟩
  | unrelated => exact .inl .unrelated

theorem Reading.attribute_of_proper (r : Reading) {a : Attribute} (ha : a.Proper) :
    ∃ r', r.attribute a = .ok r' ∧ ∀ items, r.Holds items → r'.Holds (items ++ a.items) := by
  cases ha with
  | node hitems =>
    exact foldlM_of_forall (P := fun items r => r.Holds items) (fun r _ hi => r.item_of_proper hi) r
      hitems
  | unrelated => exact ⟨r, rfl, fun items h => by simpa [Attribute.items] using h⟩

theorem Reading.attribute_of_fault (r : Reading) {a : Attribute} {e : Error} (h : a.Fault e) :
    r.attribute a = .error e := by
  cases h with
  | item hitems =>
    exact foldlM_of_firstFault (fun r _ hi => (r.item_of_proper hi).imp fun _ h => h.1)
      (fun r _ _ hi => r.item_of_fault hi) hitems r
  | noList => rfl
  | unreadable => rfl

/-! ### Variants -/

namespace Variant

theorem wellFormed_or_fault (v : Variant) : v.WellFormed ∨ ∃ e, v.Fault e := by
  by_cases hunit : v.fields = .unit
  · rcases forall_or_firstFault Attribute.proper_or_fault v.attributes with hproper | ⟨e, h⟩
    · by_cases hgroup : v.setting? "group" = none
      · exact .inr ⟨_, .noGroup hunit hproper hgroup⟩
      · by_cases hop : v.setting? "op" = none
        · exact .inr ⟨_, .noOp hunit hproper hgroup hop⟩
        · exact .inl ⟨hunit, hproper, hgroup, hop⟩
    · exact .inr ⟨e, .unread hunit h⟩
  · exact .inr ⟨_, .payload hunit⟩

/-- The attributes of a variant are read to the last values of its keys. -/
theorem reading_of_proper {v : Variant} (h : ∀ a ∈ v.attributes, a.Proper) :
    ∃ r, v.attributes.foldlM Reading.attribute {} = .ok r ∧
      r.Holds (v.attributes.flatMap Attribute.items) := by
  obtain ⟨r, hr, hholds⟩ := foldlM_of_forall (f := Reading.attribute)
    (P := fun done r => r.Holds (done.flatMap Attribute.items))
    (fun r a ha => (r.attribute_of_proper ha).imp fun _ h =>
      ⟨h.1, fun done hdone => by simpa using h.2 _ hdone⟩) ({} : Reading) h
  exact ⟨r, hr, hholds [] ⟨rfl, rfl, rfl⟩⟩

theorem row_of_wellFormed {v : Variant} (h : v.WellFormed) :
    ∃ row, v.row = .ok row ∧ v.Declares row := by
  obtain ⟨⟨group, op, name⟩, hr, hgroup, hop, hname⟩ := reading_of_proper h.proper
  obtain ⟨group, rfl⟩ : ∃ g, group = some g := by
    refine Option.ne_none_iff_exists'.mp ?_
    rintro rfl
    exact h.group hgroup
  obtain ⟨op, rfl⟩ : ∃ o, op = some o := by
    refine Option.ne_none_iff_exists'.mp ?_
    rintro rfl
    exact h.op hop
  refine ⟨⟨v.identifier, ⟨group, op⟩, name.getD (Text.spaced v.identifier)⟩, ?_, rfl,
    ⟨hgroup, hop⟩, ?_⟩
  · rw [row, if_neg (by simpa using h.unit), hr]
    rfl
  · cases name with
    | none => exact .inr ⟨hname, rfl⟩
    | some s => exact .inl hname

theorem row_of_fault {v : Variant} {e : Error} (h : v.Fault e) : v.row = .error e := by
  cases h with
  | payload h => exact if_pos h
  | unread hunit h =>
    have hread : v.attributes.foldlM Reading.attribute {} = .error e :=
      foldlM_of_firstFault (fun r _ ha => (r.attribute_of_proper ha).imp fun _ h => h.1)
        (fun r _ _ ha => r.attribute_of_fault ha) h _
    rw [row, if_neg (by simpa using hunit), hread]
    rfl
  | noGroup hunit hproper h =>
    obtain ⟨⟨group, op, name⟩, hr, hgroup, -, -⟩ := reading_of_proper hproper
    obtain rfl : group = none := Option.map_eq_none_iff.mp (hgroup.symm.trans h)
    rw [row, if_neg (by simpa using hunit), hr]
    rfl
  | noOp hunit hproper hsome h =>
    obtain ⟨⟨group, op, name⟩, hr, hgroup, hop, -⟩ := reading_of_proper hproper
    obtain rfl : op = none := Option.map_eq_none_iff.mp (hop.symm.trans h)
    cases group with
    | none => exact absurd hgroup hsome
    | some group =>
      rw [row, if_neg (by simpa using hunit), hr]
      rfl

theorem HasType.unique {v : Variant} {s t : NodeTypeId} (hs : v.HasType s) (ht : v.HasType t) :
    s = t := by
  have hgroup := hs.1.symm.trans ht.1
  have hop := hs.2.symm.trans ht.2
  simp only [Option.some.injEq, Setting.int.injEq, UInt16.toNat_inj] at hgroup hop
  cases s
  cases t
  simp_all

theorem Declares.hasType_iff {v : Variant} {row : Row} (h : v.Declares row) {t : NodeTypeId} :
    v.HasType t ↔ row.type = t :=
  ⟨h.type.unique, fun ht => ht ▸ h.type⟩

end Variant

/-! ### The table -/

/-- The rows have different types. -/
def Row.Apart (a b : Row) : Prop := a.type ≠ b.type

theorem Variant.Declares.apart_iff {v w : Variant} {a b : Row} (hv : v.Declares a)
    (hw : w.Declares b) : v.Apart w ↔ a.Apart b := by
  simp only [Apart, Row.Apart, hv.hasType_iff, hw.hasType_iff]
  constructor
  · exact fun h heq => h b.type ⟨heq, rfl⟩
  · exact fun h t ht => h (ht.1.trans ht.2.symm)

section Rows

variable {earlier rows : List Row} {first row : Row}

theorem find?_eq_some_of_mem (h : rows.Pairwise Row.Apart) (hrow : row ∈ rows) :
    find? rows row.type = some row := by
  obtain ⟨before, after, rfl⟩ := List.append_of_mem hrow
  have hbefore := (List.pairwise_append.mp h).2.2
  refine List.find?_eq_some_iff_append.mpr ⟨by simp, before, after, rfl, fun a ha => ?_⟩
  simpa [Row.Apart] using hbefore a ha row List.mem_cons_self

theorem find?_eq_none_of_forall {t : NodeTypeId} (h : ∀ row ∈ rows, row.type ≠ t) :
    find? rows t = none := by
  simpa [find?] using h

/-- In rows that are apart, a row is known by its type. -/
theorem eq_of_type_eq (h : rows.Pairwise Row.Apart) {a b : Row} (ha : a ∈ rows) (hb : b ∈ rows)
    (hab : a.type = b.type) : a = b := by
  have hfind := find?_eq_some_of_mem h ha
  rw [hab, find?_eq_some_of_mem h hb] at hfind
  exact (Option.some.inj hfind).symm

theorem pairwise_concat (h : earlier.Pairwise Row.Apart)
    (hnone : earlier.find? (·.type == row.type) = none) :
    (earlier ++ [row]).Pairwise Row.Apart := by
  have hne : ∀ a ∈ earlier, a.type ≠ row.type := by simpa using hnone
  exact List.pairwise_append.mpr ⟨h, List.pairwise_singleton _ _, fun a ha b hb => by
    rw [List.mem_singleton.mp hb]
    exact hne a ha⟩

theorem repeated?_eq_none_iff (h : earlier.Pairwise Row.Apart) :
    repeated? earlier rows = none ↔ (earlier ++ rows).Pairwise Row.Apart := by
  induction rows generalizing earlier with
  | nil => simpa [repeated?] using h
  | cons row rows ih =>
    rw [repeated?]
    cases hfind : earlier.find? (·.type == row.type) with
    | none =>
      have := ih (pairwise_concat h hfind)
      simpa using this
    | some first =>
      have htype : first.type = row.type := by simpa using List.find?_some hfind
      simp only [reduceCtorEq, false_iff]
      intro hall
      exact (List.pairwise_append.mp hall).2.2 first (List.mem_of_find?_eq_some hfind) row
        List.mem_cons_self htype

/-- The row reported is the first to repeat a type, and is reported with the row that has it. -/
theorem repeated?_eq_some_iff (h : earlier.Pairwise Row.Apart) :
    repeated? earlier rows = some (first, row) ↔
      ∃ before after, rows = before ++ row :: after ∧ (earlier ++ before).Pairwise Row.Apart ∧
        first ∈ earlier ++ before ∧ first.type = row.type := by
  induction rows generalizing earlier with
  | nil => simp [repeated?]
  | cons x rows ih =>
    rw [repeated?]
    cases hfind : earlier.find? (·.type == x.type) with
    | none =>
      -- the row at the head joins the earlier ones, which stay apart
      have hconcat := pairwise_concat h hfind
      have hne : ∀ a ∈ earlier, a.type ≠ x.type := by simpa using hfind
      refine (ih hconcat).trans ⟨?_, ?_⟩
      · rintro ⟨before, after, rfl, hbefore, hfirst, htype⟩
        exact ⟨x :: before, after, rfl, by simpa using hbefore, by simpa using hfirst, htype⟩
      · rintro ⟨_ | ⟨y, before⟩, after, hrows, hbefore, hfirst, htype⟩
        · obtain ⟨rfl, rfl⟩ := List.cons.inj hrows
          exact absurd htype (hne first (by simpa using hfirst))
        · obtain ⟨rfl, rfl⟩ := List.cons.inj hrows
          exact ⟨before, after, rfl, by simpa using hbefore, by simpa using hfirst, htype⟩
    | some f =>
      -- the row at the head repeats a type, so rows up to a later one are not apart
      have hf := List.mem_of_find?_eq_some hfind
      have hftype : f.type = x.type := by simpa using List.find?_some hfind
      simp only [Option.some.injEq, Prod.mk.injEq]
      constructor
      · rintro ⟨rfl, rfl⟩
        exact ⟨[], rows, rfl, by simpa using h, by simpa using hf, hftype⟩
      · rintro ⟨_ | ⟨y, before⟩, after, hrows, hbefore, hfirst, htype⟩
        · obtain ⟨rfl, rfl⟩ := List.cons.inj hrows
          exact ⟨eq_of_type_eq h hf (by simpa using hfirst) (hftype.trans htype.symm), rfl⟩
        · obtain ⟨rfl, rfl⟩ := List.cons.inj hrows
          exact absurd hftype
            ((List.pairwise_append.mp hbefore).2.2 f hf x List.mem_cons_self)

end Rows

/-- A relation of two lists, cut where the second one is. -/
theorem forall₂_split {α β : Type} {R : α → β → Prop} {xs : List α} {before after : List β} {y : β}
    (h : List.Forall₂ R xs (before ++ y :: after)) :
    ∃ before' x after', xs = before' ++ x :: after' ∧ List.Forall₂ R before' before ∧ R x y := by
  obtain ⟨x, after', hxy, -, hdrop⟩ :=
    List.forall₂_cons_right_iff.mp (List.forall₂_drop_append xs before (y :: after) h)
  refine ⟨xs.take before.length, x, after', ?_, List.forall₂_take_append xs before _ h, hxy⟩
  rw [← hdrop, List.take_append_drop]

theorem exists_of_mem_right {α β : Type} {R : α → β → Prop} {xs : List α} {ys : List β} {y : β}
    (h : List.Forall₂ R xs ys) (hy : y ∈ ys) : ∃ x ∈ xs, R x y := by
  obtain ⟨before, after, rfl⟩ := List.append_of_mem hy
  obtain ⟨before', x, after', rfl, -, hxy⟩ := forall₂_split h
  exact ⟨x, by simp, hxy⟩

section Table

variable {variants : List Variant} {rows : List Row} {e : Error}

/-- Well-formed variants are read, each to the row that it declares. -/
theorem mapM_row_of_wellFormed (h : ∀ v ∈ variants, v.WellFormed) :
    ∃ rows, variants.mapM Variant.row = .ok rows ∧ List.Forall₂ Variant.Declares variants rows := by
  induction variants with
  | nil => exact ⟨[], rfl, .nil⟩
  | cons v variants ih =>
    obtain ⟨hv, hvariants⟩ := List.forall_mem_cons.mp h
    obtain ⟨row, hrow, hdeclares⟩ := Variant.row_of_wellFormed hv
    obtain ⟨rows, hrows, hrest⟩ := ih hvariants
    refine ⟨row :: rows, ?_, .cons hdeclares hrest⟩
    rw [List.mapM_cons, hrow, hrows]
    rfl

theorem pairwise_apart_iff (h : List.Forall₂ Variant.Declares variants rows) :
    variants.Pairwise Variant.Apart ↔ rows.Pairwise Row.Apart := by
  obtain ⟨hlength, hget⟩ := List.forall₂_iff_get.mp h
  simp only [List.get_eq_getElem] at hget
  simp only [List.pairwise_iff_getElem, ← hlength]
  refine forall₅_congr fun i j hi hj _ => ?_
  exact (hget i hi (hlength ▸ hi)).apart_iff (hget j hj (hlength ▸ hj))

/-- Variants repeat a type where their rows do. -/
theorem firstRepetition_iff (h : List.Forall₂ Variant.Declares variants rows) :
    FirstRepetition variants e ↔ ∃ first row, repeated? [] rows = some (first, row) ∧
      e = .duplicate row.type first.identifier := by
  simp only [repeated?_eq_some_iff List.Pairwise.nil, List.nil_append]
  constructor
  · rintro ⟨before, w, after, v, t, rfl, hapart, hv, hvt, hwt, rfl⟩
    obtain ⟨rows', row, rest, rfl, hbefore, hrow⟩ := forall₂_split h.flip
    obtain ⟨first, hfirst, hdeclares⟩ := exists_of_mem_right hbefore hv
    have hvtype := hdeclares.hasType_iff.mp hvt
    have hwtype := hrow.hasType_iff.mp hwt
    refine ⟨first, row, ⟨rows', rest, rfl, (pairwise_apart_iff hbefore.flip).mp hapart, hfirst,
      hvtype.trans hwtype.symm⟩, ?_⟩
    rw [hwtype, hdeclares.identifier]
  · rintro ⟨first, row, ⟨rows', rest, rfl, hapart, hfirst, htype⟩, rfl⟩
    obtain ⟨before, w, after, rfl, hbefore, hrow⟩ := forall₂_split h
    obtain ⟨v, hv, hdeclares⟩ := exists_of_mem_right hbefore hfirst
    refine ⟨before, w, after, v, row.type, rfl, (pairwise_apart_iff hbefore).mpr hapart, hv,
      hdeclares.hasType_iff.mpr htype, hrow.type, ?_⟩
    rw [hdeclares.identifier]

theorem ofDeclaration_of_firstFault (h : FirstFault Variant.WellFormed Variant.Fault variants e) :
    ofDeclaration (.enumeration variants) = .error e := by
  have hmap : variants.mapM Variant.row = .error e :=
    mapM_of_firstFault (fun v hv => (Variant.row_of_wellFormed hv).imp fun _ h => h.1)
      (fun v e hv => Variant.row_of_fault hv) h
  rw [ofDeclaration, hmap]
  rfl

/-- What becomes of well-formed variants depends on their types alone. -/
theorem ofDeclaration_of_wellFormed (h : ∀ v ∈ variants, v.WellFormed) :
    ∃ rows, List.Forall₂ Variant.Declares variants rows ∧
      (variants.Pairwise Variant.Apart → ofDeclaration (.enumeration variants) = .ok rows) ∧
      ∀ e, FirstRepetition variants e → ofDeclaration (.enumeration variants) = .error e := by
  obtain ⟨rows, hmap, hdeclares⟩ := mapM_row_of_wellFormed h
  refine ⟨rows, hdeclares, fun hapart => ?_, fun e he => ?_⟩
  · have hnone : repeated? [] rows = none :=
      (repeated?_eq_none_iff .nil).mpr ((pairwise_apart_iff hdeclares).mp hapart)
    simp [ofDeclaration, hmap, hnone, bind, Except.bind]
  · obtain ⟨first, row, hsome, rfl⟩ := (firstRepetition_iff hdeclares).mp he
    simp [ofDeclaration, hmap, hsome, bind, Except.bind]

/-- Variants are apart, or one of them is the first to repeat a type. -/
theorem pairwise_or_firstRepetition (h : ∀ v ∈ variants, v.WellFormed) :
    variants.Pairwise Variant.Apart ∨ ∃ e, FirstRepetition variants e := by
  obtain ⟨rows, -, hdeclares⟩ := mapM_row_of_wellFormed h
  cases hrepeated : repeated? [] rows with
  | none =>
    exact .inl ((pairwise_apart_iff hdeclares).mpr ((repeated?_eq_none_iff .nil).mp hrepeated))
  | some pair => exact .inr ⟨_, (firstRepetition_iff hdeclares).mpr ⟨pair.1, pair.2, hrepeated, rfl⟩⟩

theorem declares_of_ok (h : ofDeclaration (.enumeration variants) = .ok rows) :
    (∀ v ∈ variants, v.WellFormed) ∧ variants.Pairwise Variant.Apart ∧
      List.Forall₂ Variant.Declares variants rows := by
  rcases forall_or_firstFault Variant.wellFormed_or_fault variants with hall | ⟨e, he⟩
  · obtain ⟨rows', hdeclares, hok, herror⟩ := ofDeclaration_of_wellFormed hall
    rcases pairwise_or_firstRepetition hall with hapart | ⟨e, he⟩
    · obtain rfl : rows' = rows := Except.ok.inj ((hok hapart).symm.trans h)
      exact ⟨hall, hapart, hdeclares⟩
    · simp [herror e he] at h
  · simp [ofDeclaration_of_firstFault he] at h

theorem fault_of_error (h : ofDeclaration (.enumeration variants) = .error e) :
    FirstFault Variant.WellFormed Variant.Fault variants e ∨
      (∀ v ∈ variants, v.WellFormed) ∧ FirstRepetition variants e := by
  rcases forall_or_firstFault Variant.wellFormed_or_fault variants with hall | ⟨e', he⟩
  · obtain ⟨rows, -, hok, herror⟩ := ofDeclaration_of_wellFormed hall
    rcases pairwise_or_firstRepetition hall with hapart | ⟨e', he⟩
    · simp [hok hapart] at h
    · obtain rfl : e' = e := Except.error.inj ((herror e' he).symm.trans h)
      exact .inr ⟨hall, he⟩
  · obtain rfl : e' = e := Except.error.inj ((ofDeclaration_of_firstFault he).symm.trans h)
    exact .inl he

end Table

/-- A declaration is accepted just if all its variants are well-formed and no two of them have the
same type. In the table that it then gives, the type of each variant is found with its own row, and
no other type is found. What is reported otherwise is the fault of the first variant that is not
well-formed, or, if there is none, the first type that is used again. -/
theorem derivation_exact (variants : List Variant) :
    ((∃ rows, ofDeclaration (.enumeration variants) = .ok rows) ↔
      (∀ v ∈ variants, v.WellFormed) ∧ variants.Pairwise Variant.Apart) ∧
    (∀ rows, ofDeclaration (.enumeration variants) = .ok rows →
      List.Forall₂ Variant.Declares variants rows ∧
      (∀ row ∈ rows, find? rows row.type = some row) ∧
      ∀ t, (∀ v ∈ variants, ¬v.HasType t) → find? rows t = none) ∧
    ∀ e, ofDeclaration (.enumeration variants) = .error e ↔
      FirstFault Variant.WellFormed Variant.Fault variants e ∨
      (∀ v ∈ variants, v.WellFormed) ∧ FirstRepetition variants e := by
  refine ⟨⟨?_, ?_⟩, fun rows hrows => ?_, fun e => ⟨fault_of_error, ?_⟩⟩
  · rintro ⟨rows, hrows⟩
    obtain ⟨hall, hapart, -⟩ := declares_of_ok hrows
    exact ⟨hall, hapart⟩
  · rintro ⟨hall, hapart⟩
    obtain ⟨rows, -, hok, -⟩ := ofDeclaration_of_wellFormed hall
    exact ⟨rows, hok hapart⟩
  · obtain ⟨-, hapart, hdeclares⟩ := declares_of_ok hrows
    have hrowsApart := (pairwise_apart_iff hdeclares).mp hapart
    refine ⟨hdeclares, fun row hrow => find?_eq_some_of_mem hrowsApart hrow, fun t ht => ?_⟩
    refine find?_eq_none_of_forall fun row hrow htype => ?_
    obtain ⟨v, hv, hrow⟩ := exists_of_mem_right hdeclares hrow
    exact ht v hv (hrow.hasType_iff.mpr htype)
  · rintro (he | ⟨hall, he⟩)
    · exact ofDeclaration_of_firstFault he
    · obtain ⟨-, -, -, herror⟩ := ofDeclaration_of_wellFormed hall
      exact herror e he

/-- The second variant is moved out of the way of the first one by a later entry. -/
def renumbered : List Variant := [
  ⟨"WorldPosition", [.unrelated, .node [.entry "group" (.int 1), .entry "op" (.int 2)]], .unit⟩,
  ⟨"Blend", [.node [.entry "op" (.int 2), .entry "name" (.str "Mix"), .entry "group" (.int 1)],
    .node [.entry "group" (.int 3)]], .unit⟩]

theorem renumbered_derived :
    ∃ rows, ofDeclaration (.enumeration renumbered) = .ok rows ∧
      rows = [⟨"WorldPosition", ⟨1, 2⟩, "World Position"⟩, ⟨"Blend", ⟨3, 2⟩, "Mix"⟩] ∧
      find? rows ⟨3, 2⟩ = some ⟨"Blend", ⟨3, 2⟩, "Mix"⟩ ∧ find? rows ⟨3, 1⟩ = none := by
  have hok : ofDeclaration (.enumeration renumbered) =
      .ok [⟨"WorldPosition", ⟨1, 2⟩, "World Position"⟩, ⟨"Blend", ⟨3, 2⟩, "Mix"⟩] := by
    decide +kernel
  obtain ⟨-, hfind, hnone⟩ := (derivation_exact renumbered).2.1 _ hok
  exact ⟨_, hok, rfl, hfind ⟨"Blend", ⟨3, 2⟩, "Mix"⟩ (by simp), hnone ⟨3, 1⟩ (by decide)⟩

-- a type used again is not looked for as long as a variant is at fault
example :
    ofDeclaration (.enumeration (renumbered ++ renumbered ++ [⟨"Bare", [], .unit⟩])) =
      .error .missingGroup ∧
    ofDeclaration (.enumeration (renumbered ++ renumbered)) =
      .error (.duplicate ⟨1, 2⟩ "WorldPosition") := by
  decide +kernel

end NodeTable

end ShaderGraph
