import ShaderGraph.Evaluation.State
import ShaderGraph.Proofs.ShortestDecimal
import ShaderGraph.Storage.Diagnostic
import ShaderGraph.Storage.Graph

/-! Stored values are read back. For most types every value is read back from what is written for
it; numbers of single precision are an exception, since what is not finite is written as null, and
since decimals are read by way of double precision. What is written is always tidy, so it is also
read back from its text. -/

namespace ShaderGraph

namespace JsonCodec

/-- Every value is read back from what is written for it. -/
class Lawful (α : Type) [JsonCodec α] : Prop where
  decode_encode (a : α) : decode? (encode a) = some a

/-- Whatever is written is tidy, with containers up to a depth. -/
class Shallow (α : Type) [JsonCodec α] (n : outParam Nat) : Prop where
  tidy (a : α) : Json.Tidy n (encode a)

export Lawful (decode_encode)

export Shallow (tidy)

/-! ### Plain values -/

instance : Lawful Bool := ⟨fun _ => rfl⟩

instance : Shallow Bool 0 := ⟨.bool⟩

instance : Lawful String := ⟨fun _ => rfl⟩

instance : Shallow String 0 := ⟨.string⟩

theorem intBetween?_int {low high n : Int} (h : low ≤ n ∧ n ≤ high) :
    intBetween? low high (.int n) = some n := if_pos h

instance : Lawful UInt16 where
  decode_encode n := by
    have hlt := n.toNat_lt
    change (intBetween? 0 65535 (.int n.toNat)).map _ = _
    rw [intBetween?_int (by omega)]
    simp

instance : Shallow UInt16 0 := ⟨fun _ => .number trivial⟩

instance : Lawful UInt32 where
  decode_encode n := by
    have hlt := n.toNat_lt
    change (intBetween? 0 4294967295 (.int n.toNat)).map _ = _
    rw [intBetween?_int (by omega)]
    simp

instance : Shallow UInt32 0 := ⟨fun _ => .number trivial⟩

instance : Lawful UInt64 where
  decode_encode n := by
    have hlt := n.toNat_lt
    change (intBetween? 0 18446744073709551615 (.int n.toNat)).map _ = _
    rw [intBetween?_int (by omega)]
    simp

instance : Shallow UInt64 0 := ⟨fun _ => .number trivial⟩

instance : Lawful Int32 where
  decode_encode n := by
    have hlow := n.le_toInt
    have hhigh := n.toInt_lt
    change (intBetween? (-2147483648) 2147483647 (.int n.toInt)).map _ = _
    rw [intBetween?_int (by omega)]
    simp

instance : Shallow Int32 0 := ⟨fun _ => .number trivial⟩

instance : Shallow Binary32 0 where
  tidy x := by
    change Json.Tidy 0 (if !x.isFinite then .null
      else if x.isZero then .number (.decimal x.negative ⟨0, 0⟩)
      else .number (.decimal x.negative (.shortest .even x.code)))
    by_cases hfinite : x.isFinite = true
    · by_cases hzero : x.isZero = true
      · simp only [hfinite, hzero]
        exact .number (.inl rfl)
      · simp only [hfinite, hzero]
        have hpos : 0 < x.code := by
          simp [Binary32.isZero] at hzero
          omega
        exact .number (Decimal.tidy_shortest .even hpos
          (by simpa [Binary32.isFinite] using hfinite))
    · simp only [hfinite]
      exact .null

/-! ### Lists and options -/

section

variable {α : Type} [JsonCodec α] {n : Nat}

theorem decode_list {xs : List α} (h : ∀ x ∈ xs, decode? (encode x) = some x) :
    decode? (encode xs) = some xs := by
  change (xs.map encode).mapM decode? = some xs
  induction xs with
  | nil => rfl
  | cons x xs ih =>
    have hrest := ih fun y hy => h y (List.mem_cons_of_mem x hy)
    simp [h x List.mem_cons_self, hrest]

/-- A list is refused because of any one of its members. -/
theorem decode_list_none {xs : List α} {x : α} (hx : x ∈ xs)
    (h : decode? (encode x) = (none : Option α)) :
    decode? (encode xs) = (none : Option (List α)) := by
  change (xs.map encode).mapM decode? = none
  induction xs with
  | nil => cases hx
  | cons y ys ih =>
    rcases List.mem_cons.mp hx with rfl | hx
    · simp [h]
    · simp [ih hx]

instance [Lawful α] : Lawful (List α) := ⟨fun _ => decode_list fun x _ => decode_encode x⟩

instance [Shallow α n] : Shallow (List α) (n + 1) where
  tidy xs := .array fun j hj => by
    obtain ⟨x, -, rfl⟩ := List.mem_map.mp hj
    exact tidy x

theorem decode_option_of_ne {j : Json} (h : j ≠ .null) :
    (decode? j : Option (Option α)) = (decode? j).map some := by
  cases j with
  | null => exact absurd rfl h
  | _ => rfl

/-- What is never written as null can be left out. -/
theorem lawful_option [Lawful α] (hnull : ∀ a : α, encode a ≠ .null) : Lawful (Option α) where
  decode_encode a := by
    cases a with
    | none => rfl
    | some a =>
      change decode? (encode a) = _
      rw [decode_option_of_ne (hnull a), decode_encode]
      rfl

instance [Shallow α n] : Shallow (Option α) n where
  tidy a := by
    cases a with
    | none => exact .null
    | some a => exact tidy a

end

/-! ### Enumerations -/

/-- The member of every name is found. -/
theorem lawful_enumeration {α : Type} [Enumeration α]
    (h : ∀ a : α, Enumeration.find? α (Enumeration.identifier a) = some a) :
    @Lawful α (ofEnumeration α) :=
  @Lawful.mk α (ofEnumeration α) h

instance : Lawful Dim := lawful_enumeration fun a => by cases a <;> rfl

instance : Shallow Dim 0 := ⟨fun _ => .string _⟩

instance : Lawful Direction := lawful_enumeration fun a => by cases a <;> rfl

instance : Shallow Direction 0 := ⟨fun _ => .string _⟩

instance : Lawful NodeKind := lawful_enumeration fun a => by cases a <;> rfl

instance : Shallow NodeKind 0 := ⟨fun _ => .string _⟩

end JsonCodec

/-! ### Identifiers -/

namespace AssetId

theorem hexValue?_digitChar {d : Nat} (h : d < 16) : hexValue? (Nat.digitChar d) = some d := by
  have hall : ∀ d < 16, hexValue? (Nat.digitChar d) = some d := by decide
  exact hall d h

theorem length_digits (a : AssetId) : a.digits.length = 32 := by simp [digits]

/-- The first digits stand for the leading part of the number. -/
theorem foldlM_digits (n : Nat) {count : Nat} (h : count ≤ 32) :
    ((List.range count).map fun i => Nat.digitChar (n / Nat.pow 16 (31 - i) % 16)).foldlM
      (fun n c => (hexValue? c).map (n * 16 + ·)) (n / 16 ^ 32) = some (n / 16 ^ (32 - count)) := by
  induction count with
  | zero => rfl
  | succ count ih =>
    have hpower : 32 - count = 31 - count + 1 := by omega
    have hlast : 32 - (count + 1) = 31 - count := by omega
    have hdigit : hexValue? (Nat.digitChar (n / Nat.pow 16 (31 - count) % 16)) =
        some (n / 16 ^ (31 - count) % 16) := hexValue?_digitChar (Nat.mod_lt _ (by decide))
    have hvalue :
        n / 16 ^ (32 - count) * 16 + n / 16 ^ (31 - count) % 16 = n / 16 ^ (31 - count) := by
      rw [hpower, Nat.pow_succ, ← Nat.div_div_eq_div_mul, Nat.mul_comm, Nat.div_add_mod]
    rw [List.range_succ, List.map_append, List.foldlM_append, ih (by omega), List.map_singleton,
      hlast]
    change ((hexValue? _).map _).bind _ = _
    rw [hdigit, Option.map_some, hvalue]
    rfl

theorem ofDigits?_digits (a : AssetId) : ofDigits? a.digits = some a := by
  have hfold := foldlM_digits a.bits.toNat (Nat.le_refl 32)
  have hzero : a.bits.toNat / 16 ^ 32 = 0 := Nat.div_eq_of_lt a.bits.isLt
  rw [hzero, Nat.sub_self, Nat.pow_zero, Nat.div_one] at hfold
  unfold ofDigits?
  rw [if_pos a.length_digits, digits, hfold, Option.map_some, BitVec.ofNat_toNat,
    BitVec.setWidth_eq]

theorem ofGroups?_append {a b c d e : List Char} (ha : a.length = 8) (hb : b.length = 4)
    (hc : c.length = 4) (hd : d.length = 4) :
    ofGroups? (a ++ '-' :: b ++ '-' :: c ++ '-' :: d ++ '-' :: e) =
      ofDigits? (a ++ b ++ c ++ d ++ e) := by
  have hdrop {n : Nat} {l : List Char} (h : l.length ≤ n) : l.drop n = [] :=
    List.drop_eq_nil_of_le h
  simp [ofGroups?, List.drop_append, hdrop, ha, hb, hc, hd]

/-- An identifier is read back from its text. -/
theorem ofText?_text (a : AssetId) : ofText? a.text = some a := by
  have hlen := a.length_digits
  have hread := a.ofDigits?_digits
  have hsplit : a.digits = a.digits.take 8 ++ (a.digits.drop 8).take 4 ++
      (a.digits.drop 12).take 4 ++ (a.digits.drop 16).take 4 ++ a.digits.drop 20 := by
    have hgroup (n : Nat) :
        (a.digits.drop n).take 4 ++ a.digits.drop (n + 4) = a.digits.drop n := by
      rw [← List.drop_drop, List.take_append_drop]
    rw [List.append_assoc, hgroup 16, List.append_assoc, hgroup 12, List.append_assoc, hgroup 8,
      List.take_append_drop]
  have hgroups := ofGroups?_append (e := a.digits.drop 20)
    (show (a.digits.take 8).length = 8 by simp [hlen])
    (show ((a.digits.drop 8).take 4).length = 4 by simp [hlen])
    (show ((a.digits.drop 12).take 4).length = 4 by simp [hlen])
    (show ((a.digits.drop 16).take 4).length = 4 by simp [hlen])
  rw [← hsplit, hread] at hgroups
  unfold ofText? text
  dsimp only
  rw [String.toList_ofList, if_neg (by simp [hlen]), if_pos (by simp [hlen])]
  exact hgroups

end AssetId

namespace JsonCodec

instance : Lawful AssetId := ⟨AssetId.ofText?_text⟩

instance : Shallow AssetId 0 := ⟨fun _ => .string _⟩

/-! ### Variants and records -/

theorem tidy_variant {n : Nat} {content : Json} (h : Json.Tidy n content) (name : String) :
    Json.Tidy (n + 1) (.variant name content) :=
  .object (by simpa using h) (by simp)

instance : Lawful ValueType where
  decode_encode type := by
    cases type with
    | float dim => exact congrArg (Option.map ValueType.float) (decode_encode dim)
    | _ => rfl

instance : Shallow ValueType 1 where
  tidy type := by
    cases type with
    | float dim => exact tidy_variant (tidy dim) _
    | _ => exact .string _

instance : Lawful Cause where
  decode_encode cause := by
    cases cause with
    | missingOrInvalidAsset id =>
      exact congrArg (Option.map Cause.missingOrInvalidAsset) (decode_encode id)
    | recursiveOrMalformedCall text => rfl
    | invalidOutput box => exact congrArg (Option.map Cause.invalidOutput) (decode_encode box)
    | invalidInput node => exact congrArg (Option.map Cause.invalidInput) (decode_encode node)
    | capacityExceeded limit =>
      exact congrArg (Option.map Cause.capacityExceeded) (decode_encode limit)
    | unsupportedInContext text => rfl
    | invalidParameter text => rfl
    | typeMismatch source target =>
      change decodeMismatch? (.object [("from", encode source), ("to", encode target)]) = _
      have hfields : Json.fields? [⟨"from", false⟩, ⟨"to", false⟩]
          (.object [("from", encode source), ("to", encode target)]) =
          some [encode source, encode target] := rfl
      simp [decodeMismatch?, hfields, decode_encode]

instance : Shallow Cause 3 where
  tidy cause := by
    cases cause with
    | typeMismatch source target =>
      refine tidy_variant (.object ?_ (by simp)) _
      simpa using ⟨tidy source, tidy target⟩
    | _ => exact tidy_variant (Json.Tidy.mono (Nat.zero_le 2) (tidy _)) _

instance : Lawful (Option AssetId) := lawful_option fun _ => by rintro ⟨⟩

instance : Lawful Diagnostic where
  decode_encode d := by
    change ((decode? (encode d.function)).bind fun function =>
      (decode? (encode d.callPath)).bind fun callPath => (decode? (encode d.node)).bind fun node =>
        (decode? (encode d.box)).bind fun box => (decode? (encode d.cause)).bind fun cause =>
          some (Diagnostic.mk function callPath node box cause)) = some d
    simp [decode_encode]

instance : Shallow Diagnostic 4 where
  tidy d := by
    refine .object ?_ (by simp)
    simp only [List.forall_mem_cons, List.not_mem_nil, false_imp_iff, implies_true, and_true]
    exact ⟨(tidy d.function).mono (by decide), (tidy d.callPath).mono (by decide),
      (tidy d.node).mono (by decide), (tidy d.box).mono (by decide), tidy d.cause⟩

instance : Lawful Connection where
  decode_encode c := by
    change ((decode? (encode c.node)).bind fun node => (decode? (encode c.box)).bind fun box =>
      some (Connection.mk node box)) = some c
    simp [decode_encode]

instance : Shallow Connection 1 where
  tidy c := by
    refine .object ?_ (by simp)
    simpa using ⟨tidy c.node, tidy c.box⟩

instance : Lawful (Option Connection) := lawful_option fun _ => by rintro ⟨⟩

instance : Lawful Box where
  decode_encode b := by
    change ((decode? (encode b.id)).bind fun id =>
      (decode? (encode b.direction)).bind fun direction =>
        (decode? (encode b.type)).bind fun type =>
          (decode? (encode b.connection)).bind fun connection =>
            some (Box.mk id direction type connection)) = some b
    simp [decode_encode]

instance : Shallow Box 2 where
  tidy b := by
    refine .object ?_ (by simp)
    simp only [List.forall_mem_cons, List.not_mem_nil, false_imp_iff, implies_true, and_true]
    exact ⟨(tidy b.id).mono (by decide), (tidy b.direction).mono (by decide), tidy b.type,
      tidy b.connection⟩

end JsonCodec

open JsonCodec

/-! ### Numbers of single precision -/

/-- The decimal that is written for the number reads back as that number. -/
def Binary32.ReadsBack (x : Binary32) : Prop := decode? (encode x) = some x

instance : DecidablePred Binary32.ReadsBack := fun _ => inferInstanceAs (Decidable (_ = _))

-- Decimals are rounded twice, which moves one finite number to its neighbour.
example : ¬Binary32.ReadsBack ⟨0x15ae43fd⟩ := by decide +kernel

theorem Binary32.decode_encode_of_not_isFinite {x : Binary32} (h : x.isFinite = false) :
    decode? (encode x) = (none : Option Binary32) := by
  have hnull : encode x = Json.null := if_pos (by simp [h])
  rw [hnull]
  rfl

/-- The numbers of a parameter. -/
def Param.floats : Param → List Binary32
  | float x => [x]
  | float2 x y => [x, y]
  | float3 x y z => [x, y, z]
  | float4 x y z w => [x, y, z, w]
  | _ => []

def Node.floats (n : Node) : List Binary32 := n.params.flatMap Param.floats

def Graph.floats (g : Graph) : List Binary32 := g.nodes.flatMap Node.floats

theorem decodeVector?_some {n : Nat} {xs : List Binary32} (hn : xs.length = n)
    (h : ∀ x ∈ xs, x.ReadsBack) : decodeVector? n (encodeVector xs) = some xs := by
  change (if (xs.map encode).length = n then decode? (encode xs) else none) = _
  rw [if_pos (by rw [List.length_map, hn]), decode_list h]

theorem decodeVector?_none (n : Nat) {xs : List Binary32} {x : Binary32} (hx : x ∈ xs)
    (h : x.isFinite = false) : decodeVector? n (encodeVector xs) = none := by
  change (if (xs.map encode).length = n then decode? (encode xs) else none) = _
  rw [decode_list_none hx (Binary32.decode_encode_of_not_isFinite h), ite_self]

namespace Param

/-- A parameter is read back if its numbers are. -/
theorem decode_encode {p : Param} (h : ∀ x ∈ p.floats, x.ReadsBack) :
    decode? (encode p) = some p := by
  cases p with
  | bool b => rfl
  | int i => exact congrArg (Option.map Param.int) (Lawful.decode_encode i)
  | float x => exact congrArg (Option.map Param.float) (h x (by simp [floats]))
  | float2 x y =>
    change (decodeVector? 2 (encodeVector [x, y])).bind _ = _
    exact congrArg (Option.bind · _) (decodeVector?_some rfl h)
  | float3 x y z =>
    change (decodeVector? 3 (encodeVector [x, y, z])).bind _ = _
    exact congrArg (Option.bind · _) (decodeVector?_some rfl h)
  | float4 x y z w =>
    change (decodeVector? 4 (encodeVector [x, y, z, w])).bind _ = _
    exact congrArg (Option.bind · _) (decodeVector?_some rfl h)
  | text s => rfl
  | asset id => exact congrArg (Option.map Param.asset) (Lawful.decode_encode id)

/-- A parameter is refused if one of its numbers is not finite. -/
theorem decode_encode_none {p : Param} {x : Binary32} (hx : x ∈ p.floats)
    (h : x.isFinite = false) : decode? (encode p) = (none : Option Param) := by
  cases p with
  | float y =>
    obtain rfl : x = y := by simpa [floats] using hx
    exact congrArg (Option.map Param.float) (Binary32.decode_encode_of_not_isFinite h)
  | float2 y z =>
    change (decodeVector? 2 (encodeVector [y, z])).bind _ = _
    exact congrArg (Option.bind · _) (decodeVector?_none 2 hx h)
  | float3 y z w =>
    change (decodeVector? 3 (encodeVector [y, z, w])).bind _ = _
    exact congrArg (Option.bind · _) (decodeVector?_none 3 hx h)
  | float4 y z w v =>
    change (decodeVector? 4 (encodeVector [y, z, w, v])).bind _ = _
    exact congrArg (Option.bind · _) (decodeVector?_none 4 hx h)
  | _ => simp [floats] at hx

end Param

instance : Shallow Param 2 where
  tidy p := by
    have hvector (xs : List Binary32) : Json.Tidy 1 (encodeVector xs) := tidy xs
    cases p with
    | float2 | float3 | float4 => exact tidy_variant (hvector _) _
    | _ => exact tidy_variant (Json.Tidy.mono (Nat.zero_le 1) (tidy _)) _

/-! ### Graphs -/

namespace Node

theorem decode_encode_eq (n : Node) : decode? (encode n) =
    (decode? (encode n.params)).map fun params => { n with params } := by
  change ((decode? (encode n.id)).bind fun id => (decode? (encode n.kind)).bind fun kind =>
    (decode? (encode n.params)).bind fun params => (decode? (encode n.boxes)).bind fun boxes =>
      some (Node.mk id kind params boxes)) = _
  simp only [Lawful.decode_encode, Option.bind_some]
  exact Option.map_eq_bind.symm

theorem decode_encode {n : Node} (h : ∀ x ∈ n.floats, x.ReadsBack) :
    decode? (encode n) = some n := by
  have hparams : decode? (encode n.params) = some n.params :=
    decode_list fun p hp => Param.decode_encode fun x hx => h x (List.mem_flatMap.mpr ⟨p, hp, hx⟩)
  rw [decode_encode_eq, hparams]
  rfl

theorem decode_encode_none {n : Node} {x : Binary32} (hx : x ∈ n.floats)
    (h : x.isFinite = false) : decode? (encode n) = (none : Option Node) := by
  obtain ⟨p, hp, hx⟩ := List.mem_flatMap.mp hx
  rw [decode_encode_eq, decode_list_none hp (Param.decode_encode_none hx h)]
  rfl

end Node

instance : Shallow Node 4 where
  tidy n := by
    refine .object ?_ (by simp)
    simp only [List.forall_mem_cons, List.not_mem_nil, false_imp_iff, implies_true, and_true]
    exact ⟨(tidy n.id).mono (by decide), (tidy n.kind).mono (by decide), tidy n.params,
      tidy n.boxes⟩

namespace Graph

theorem decode_encode_eq (g : Graph) :
    decode? (encode g) = (decode? (encode g.nodes)).map Graph.mk := by
  change ((decode? (encode g.nodes)).bind fun nodes => some (Graph.mk nodes)) = _
  exact Option.map_eq_bind.symm

theorem decode_encode {g : Graph} (h : ∀ x ∈ g.floats, x.ReadsBack) :
    decode? (encode g) = some g := by
  have hnodes : decode? (encode g.nodes) = some g.nodes :=
    decode_list fun n hn => Node.decode_encode fun x hx => h x (List.mem_flatMap.mpr ⟨n, hn, hx⟩)
  rw [decode_encode_eq, hnodes]
  rfl

theorem decode_encode_none {g : Graph} {x : Binary32} (hx : x ∈ g.floats)
    (h : x.isFinite = false) : decode? (encode g) = (none : Option Graph) := by
  obtain ⟨n, hn, hx⟩ := List.mem_flatMap.mp hx
  rw [decode_encode_eq, decode_list_none hn (Node.decode_encode_none hx h)]
  rfl

end Graph

instance : Shallow Graph 6 where
  tidy g := .object (by simpa using tidy g.nodes) (by simp)

/-! ### Text -/

/-- A stored value, read from its text. -/
def readStored {α : Type} [JsonCodec α] (text : String) : Option α :=
  (Json.ofText? text).bind decode?

theorem readStored_text {α : Type} [JsonCodec α] {n : Nat} [Shallow α n] (hn : n ≤ 127) (a : α) :
    readStored (encode a).text = decode? (α := α) (encode a) := by
  rw [readStored, Json.ofText?_text (tidy a) hn, Option.bind_some]

/-- Stored graphs and diagnostics are read back from their text. A graph whose numbers are finite is
read back if the decimals written for them are, and an evaluation that starts from it remembers
nothing; a graph with a number that is not finite is refused. The same holds of a graph that was
read from any value that is accepted for one. Every diagnostic is read back. -/
theorem storage_round_trips :
    (∀ g : Graph, (∀ x ∈ g.floats, x.isFinite = true) →
      (∀ x ∈ g.floats, x.isFinite = true → x.ReadsBack) →
      readStored (encode g).text = some g ∧ ∀ key, (State.ofGraph g).remembered? key = none) ∧
    (∀ (j : Json) (g : Graph), decode? j = some g →
      ((∀ x ∈ g.floats, x.isFinite = true) →
        (∀ x ∈ g.floats, x.isFinite = true → x.ReadsBack) →
        readStored (encode g).text = some g) ∧
      ((∃ x ∈ g.floats, x.isFinite = false) →
        readStored (encode g).text = (none : Option Graph))) ∧
    (∀ d : Diagnostic, readStored (encode d).text = some d) ∧
    ∀ (j : Json) (d : Diagnostic), decode? j = some d → readStored (encode d).text = some d := by
  have hgraph (g : Graph) (hf : ∀ x ∈ g.floats, x.isFinite = true)
      (hr : ∀ x ∈ g.floats, x.isFinite = true → x.ReadsBack) :
      readStored (encode g).text = some g := by
    rw [readStored_text (by decide)]
    exact Graph.decode_encode fun x hx => hr x hx (hf x hx)
  have hdiagnostic (d : Diagnostic) : readStored (encode d).text = some d := by
    rw [readStored_text (by decide), decode_encode]
  refine ⟨fun g hf hr => ⟨hgraph g hf hr, fun _ => rfl⟩, fun _ g _ => ⟨hgraph g, ?_⟩, hdiagnostic,
    fun _ d _ => hdiagnostic d⟩
  rintro ⟨x, hx, hnot⟩
  rw [readStored_text (by decide)]
  exact Graph.decode_encode_none hx hnot

/-- A graph with numbers, a text with quotes and a connection that leads nowhere. -/
def noted : Graph :=
  ⟨[⟨1, .vector2, [.float2 ⟨0x3dcccccd⟩ ⟨0x80000000⟩], []⟩,
    ⟨1, .customCode, [.text "Output0 = \"\t\";", .float ⟨0x7f7fffff⟩],
      [⟨8, .output, .float .d4, some ⟨18446744073709551615, 7⟩⟩]⟩]⟩

/-- The graph with an infinite number in it. -/
def unbounded : Graph := ⟨noted.nodes ++ [⟨3, .float, [.float ⟨0x7f800000⟩], []⟩]⟩

theorem noted_round_trips :
    readStored (encode noted).text = some noted ∧
      readStored (encode unbounded).text = (none : Option Graph) := by
  obtain ⟨hgraph, haccepted, -⟩ := storage_round_trips
  -- an exponent beyond all range is accepted for an infinite number
  have hinfinite : decode? (.object [("nodes", .array (noted.nodes.map encode ++
      [.array [.int 3, .string "Float",
        .array [.variant "Float" (.number (.decimal false ⟨1, 39⟩))], .array []]]))]) =
      some unbounded := by decide +kernel
  exact ⟨(hgraph noted (by decide +kernel) (by decide +kernel)).1,
    (haccepted _ unbounded hinfinite).2 ⟨⟨0x7f800000⟩, by decide +kernel, by decide +kernel⟩⟩

end ShaderGraph
