import TensorGraph.Proofs.Wire.Message
import Mathlib.Data.List.Nodup
import Mathlib.Data.List.Pairwise

/-! # Schemas

A schema tells, for each kind of message, the numbers of its fields and what they hold: values of
one wire type, repeated numbers, or messages of some kind. Some fields make up a choice, of which
the last one that occurs counts.

A rule **follows** a field of a schema when it takes payloads of the accepted wire types only, keeps
to one part of the message, adds repeated numbers in order however they are cut into payloads, and
reads a message by the codec of its kind. Rules that follow different fields commute, unless the
fields belong to one choice. -/

namespace TensorGraph.Wire

/-- The wire type that a payload is written with; a group has that of its beginning. -/
def Payload.type : Payload → WireType
  | varint _ => .varint
  | fixed64 _ => .fixed64
  | bytes _ _ => .bytes
  | group => .startGroup
  | fixed32 _ => .fixed32

/-- The numbers that a payload of numbers of a wire type holds: one, as `number?` says, or a packed
run of them. -/
def Payload.numbers : WireType → Payload → Option (List Nat)
  | .varint, varint value => some [value.toNat]
  | .varint, bytes content 0 => Varint.readAll content
  | .fixed64, fixed64 bits => some [bits.toNat]
  | .fixed64, bytes content 0 => unpackWords 8 content
  | .fixed32, fixed32 bits => some [bits.toNat]
  | .fixed32, bytes content 0 => unpackWords 4 content
  | _, _ => none

/-- What a field holds. -/
inductive Content (K : Type)
  /-- Values of one wire type. -/
  | value (type : WireType)
  /-- Repeated numbers of one wire type, one by one or packed. -/
  | numbers (type : WireType)
  /-- Messages of a kind. -/
  | message (kind : K)

namespace Content

variable {K : Type}

/-- Whether a wire type is accepted and not passed over by fields with this content. -/
def accepts : Content K → WireType → Bool
  | value type, given => given = type
  | numbers type, given => given = type ∨ given = .bytes
  | message _, given => given = .bytes

/-- Whether what is held is read in place. -/
def framed : Content K → Bool
  | value _ => false
  | numbers _ => true
  | message _ => true

end Content

/-- A field of a kind of messages. -/
structure FieldSpec (K : Type) where
  number : Nat
  content : Content K
  /-- The name of the choice that the field belongs to. -/
  oneof : Option String := none

/-- The fields belong to one choice. -/
def FieldSpec.Exclusive {K : Type} (a b : FieldSpec K) : Prop :=
  ∃ name, a.oneof = some name ∧ b.oneof = some name

/-- Whether the field of a number is read in place, as its `Content` says. -/
def framedIn {K : Type} (specs : List (FieldSpec K)) (number : Nat) : Bool :=
  specs.any fun spec => spec.number == number && spec.content.framed

variable {σ α β K : Type} {Record : K → Type}

/-! ### Values and numbers -/

/-- Only payloads of the wire type `type` are taken. -/
def Scalar.Takes (kind : Scalar α) (type : WireType) : Prop :=
  ∀ payload : Payload, payload.type ≠ type → kind.read payload = .other

/-- Numbers of the wire type `type` are taken one by one as they are taken when packed, each by
`decode`. -/
structure Numeric.Takes (kind : Numeric α) (type : WireType) (decode : Nat → Option α) : Prop where
  scalar : kind.toScalar.Takes type
  single : ∀ payload n, payload.type = type → payload.numbers type = some [n] →
    kind.read payload = (decode n).elim .malformed .value
  unpack : ∀ content numbers, (Payload.bytes content 0).numbers type = some numbers →
    kind.unpack content = numbers.mapM decode
  type_ne : type ≠ .bytes

namespace Scalar

end Scalar

theorem mapM_some {f : α → β} (l : List α) : l.mapM (fun a => some (f a)) = some (l.map f) := by
  induction l with
  | nil => rfl
  | cons a l ih => rw [List.mapM_cons, ih]; rfl

namespace Numeric

section Numbers

variable {kind : Numeric α} {type : WireType} (htype : type ≠ .bytes)
include htype

end Numbers

end Numeric

/-! ### Rules that keep to a part -/

/-- What is put into `p` does not show in `q`, nor the other way round. -/
structure Part.Apart (p : Part σ α) (q : Part σ β) : Prop where
  set_comm : ∀ a b s, p.set a (q.set b s) = q.set b (p.set a s) := by intros; rfl
  left : ∀ b s, p.get (q.set b s) = p.get s := by intros; rfl
  right : ∀ a s, q.get (p.set a s) = q.get s := by intros; rfl

theorem Part.Apart.symm {p : Part σ α} {q : Part σ β} (h : p.Apart q) : q.Apart p where
  set_comm b a s := (h.set_comm a b s).symm
  left := h.right
  right := h.left

/-- What the rule does is told by the payload and done to `part`. -/
def Rule.Confined (r : Rule σ) (part : Part σ α) : Prop :=
  ∀ payload, ∃ change : Option (α → α), ∀ s,
    r.read payload s = change.map fun f => part.set (f (part.get s)) s

/-- **Rules that keep to parts which are apart commute** (`Part.Apart`), also when they fail. -/
theorem Rule.Confined.comm {r r' : Rule σ} {p : Part σ α} {q : Part σ β} (hr : r.Confined p)
    (hr' : r'.Confined q) (h : p.Apart q) (payload payload' : Payload) (s : σ) :
    (r.read payload s).bind (r'.read payload') = (r'.read payload' s).bind (r.read payload) := by
  obtain ⟨change, hchange⟩ := hr payload
  obtain ⟨change', hchange'⟩ := hr' payload'
  rw [funext hchange, funext hchange']
  cases change with
  | none => cases change' <;> rfl
  | some f =>
    cases change' with
    | none => rfl
    | some f' => simp only [Option.map_some, Option.bind_some, h.left, h.right, h.set_comm]

namespace Rule

variable {number : Nat} {s : σ}

/-- How a value that is read changes what is there: it is joined to it by `join`. -/
def change (join : β → α → α) : Finding β → Option (α → α)
  | .value b => some (join b)
  | .other => some id
  | .malformed => none

theorem take_eq {part : Part σ α} (hpart : part.Lawful) (join : β → α → α) (finding : Finding β) :
    take finding (fun b s => part.set (join b (part.get s)) s) s =
      (change join finding).map fun f => part.set (f (part.get s)) s := by
  cases finding with
  | value b => rfl
  | other => exact congrArg some (hpart.set_get s).symm
  | malformed => rfl

/-- The rule joins the value of `kind` that a payload holds to what is there in `part`. -/
def Joins (r : Rule σ) (kind : Scalar β) (part : Part σ α) (join : β → α → α) : Prop :=
  ∀ payload s, r.read payload s =
    take (kind.read payload) (fun b s => part.set (join b (part.get s)) s) s

/-- The rule joins the message in a payload, which `codec` reads, to what is there in `part`, and
passes over other payloads. -/
def Nests (r : Rule σ) (codec : Codec β) (part : Part σ α) (join : β → α → α) : Prop :=
  ∀ payload s, r.read payload s =
    match payload with
    | .bytes content lacking =>
      (codec.read lacking content).map fun m => part.set (join m (part.get s)) s
    | _ => some s

section Joining

variable {r : Rule σ} {part : Part σ α} {join : β → α → α} (hpart : part.Lawful)
include hpart

theorem Joins.confined {kind : Scalar β} (h : r.Joins kind part join) : r.Confined part :=
  fun payload => ⟨change join (kind.read payload), fun s =>
    (h payload s).trans (take_eq hpart join _)⟩

theorem Nests.confined {codec : Codec β} (h : r.Nests codec part join) : r.Confined part := by
  intro payload
  cases payload with
  | bytes content lacking =>
    refine ⟨(codec.read lacking content).map join, fun s => ?_⟩
    rw [h, Option.map_map]
    rfl
  | _ => exact ⟨some id, fun s => (h _ s).trans (congrArg some (hpart.set_get s).symm)⟩

end Joining

end Rule

/-! ### Rules that follow a field -/

/-- The rule adds numbers one after the other, however they are cut into payloads. -/
def Rule.Adds (r : Rule σ) (type : WireType) : Prop :=
  ∃ add : List Nat → σ → Option σ, (∀ s, add [] s = some s) ∧
    (∀ xs ys s, add (xs ++ ys) s = (add xs s).bind (add ys)) ∧
    ∀ payload xs s, payload.numbers type = some xs → r.read payload s = add xs s

/-- What the rule does with a content is told by what `codec` reads from it. -/
def Rule.Holds (r : Rule σ) (codec : Codec α) : Prop :=
  ∀ content lacking content' lacking' s, codec.read lacking content = codec.read lacking' content' →
    r.read (.bytes content lacking) s = r.read (.bytes content' lacking') s

/-- What the rule does with payloads that are accepted. -/
def Rule.Suits (codecs : (k : K) → Codec (Record k)) (r : Rule σ) : Content K → Prop
  | .value _ => True
  | .numbers type => r.Adds type
  | .message k => r.Holds (codecs k)

/-- The rule follows a field `spec` of a schema and keeps to `part`. -/
structure Rule.Follows (codecs : (k : K) → Codec (Record k)) (spec : FieldSpec K) (part : Part σ α)
    (r : Rule σ) : Prop where
  number : r.number = spec.number
  framed : r.framed = spec.content.framed
  confined : r.Confined part
  ignores : ∀ payload s, spec.content.accepts payload.type = false → r.read payload s = some s
  suits : r.Suits codecs spec.content

namespace Rule

variable {codecs : (k : K) → Codec (Record k)} {number : Nat} {oneof : Option String}

section Following

variable {r : Rule σ} {part : Part σ α} {join : β → α → α} (hpart : part.Lawful)
include hpart

end Following

end Rule

/-! ### Formats that conform to a schema -/

/-- A part of messages, with the type of what is there. -/
structure Slot (σ : Type) where
  type : Type
  part : Part σ type

/-- The rules follow the fields one by one, each in its own part (`Rule.Follows`). -/
inductive FollowsAll (codecs : (k : K) → Codec (Record k)) :
    List (FieldSpec K) → List (Slot σ) → List (Rule σ) → Prop
  | nil : FollowsAll codecs [] [] []
  | cons {type : Type} {spec : FieldSpec K} {specs : List (FieldSpec K)} {slots : List (Slot σ)}
      {part : Part σ type} {r : Rule σ} {rules : List (Rule σ)} (h : r.Follows codecs spec part)
      (hrest : FollowsAll codecs specs slots rules) :
      FollowsAll codecs (spec :: specs) (⟨type, part⟩ :: slots) (r :: rules)

/-- The fields belong to one choice (`Exclusive`), or their parts are apart (`Apart`). -/
def Compatible (a b : FieldSpec K × Slot σ) : Prop :=
  a.1.Exclusive b.1 ∨ a.2.part.Apart b.2.part

instance : Std.Symm (Compatible (K := K) (σ := σ)) where
  symm := by
    rintro a b (⟨name, ha, hb⟩ | hapart)
    · exact .inl ⟨name, hb, ha⟩
    · exact .inr hapart.symm

/-- The rules follow the fields (`FollowsAll`), in compatible parts. -/
def Conforms (codecs : (k : K) → Codec (Record k)) (specs : List (FieldSpec K))
    (rules : List (Rule σ)) : Prop :=
  ∃ slots, FollowsAll codecs specs slots rules ∧ (specs.zip slots).Pairwise Compatible

section Format

variable {codecs : (k : K) → Codec (Record k)} {specs : List (FieldSpec K)}
  {slots : List (Slot σ)} {rules : List (Rule σ)}

theorem FollowsAll.numbers_eq (h : FollowsAll codecs specs slots rules) :
    rules.map (·.number) = specs.map (·.number) := by
  induction h with
  | nil => rfl
  | cons h _ ih => rw [List.map_cons, List.map_cons, h.number, ih]

/-- Every field has a slot and a rule. -/
theorem FollowsAll.exists_of_mem (h : FollowsAll codecs specs slots rules) {spec : FieldSpec K}
    (hspec : spec ∈ specs) : ∃ slot r, (spec, slot) ∈ specs.zip slots ∧ r ∈ rules ∧
      r.Follows codecs spec slot.part := by
  induction h with
  | nil => cases hspec
  | cons h _ ih =>
    rcases List.mem_cons.1 hspec with rfl | hspec
    · exact ⟨_, _, List.mem_cons_self, List.mem_cons_self, h⟩
    · obtain ⟨slot, r, hslot, hr, hfollows⟩ := ih hspec
      exact ⟨slot, r, List.mem_cons_of_mem _ hslot, List.mem_cons_of_mem _ hr, hfollows⟩

/-- A field of another number has no rule, by `ruleOf?`. -/
theorem FollowsAll.ruleOf?_eq_none (h : FollowsAll codecs specs slots rules) {number : Nat}
    (hnew : ∀ spec ∈ specs, spec.number ≠ number) : ruleOf? rules number = none := by
  unfold ruleOf?
  rw [List.find?_eq_none]
  intro r hr heq
  have hmem : r.number ∈ specs.map (·.number) := h.numbers_eq ▸ List.mem_map.2 ⟨r, hr, rfl⟩
  obtain ⟨spec, hspec, hnumber⟩ := List.mem_map.1 hmem
  exact hnew spec hspec (hnumber.trans (beq_iff_eq.1 heq))

/-- The field of the schema with its rule, found by the number (`ruleOf?`). -/
theorem FollowsAll.ruleOf?_eq_some (h : FollowsAll codecs specs slots rules)
    (hnumbered : Numbered (specs.map (·.number))) {spec : FieldSpec K} (hspec : spec ∈ specs) :
    ∃ slot r, (spec, slot) ∈ specs.zip slots ∧ ruleOf? rules spec.number = some r ∧
      r.Follows codecs spec slot.part := by
  obtain ⟨slot, r, hslot, hr, hfollows⟩ := h.exists_of_mem hspec
  rw [← h.numbers_eq] at hnumbered
  exact ⟨slot, r, hslot, hfollows.number ▸ ruleOf?_eq hnumbered.1 hr, hfollows⟩

theorem eq_of_number_eq (hnumbered : Numbered (specs.map (·.number))) {a b : FieldSpec K}
    (ha : a ∈ specs) (hb : b ∈ specs) (h : a.number = b.number) : a = b :=
  List.inj_on_of_nodup_map (hnumbered.1.imp Nat.ne_of_lt) ha hb h

namespace Conforms

variable (h : Conforms codecs specs rules) (hnumbered : Numbered (specs.map (·.number)))
include h hnumbered

/-- The format reads in place (`isFramed`) what the schema says (`framedIn`). -/
theorem isFramed_eq : isFramed rules = framedIn specs := by
  obtain ⟨slots, hall, -⟩ := h
  funext number
  by_cases hknown : ∃ spec ∈ specs, spec.number = number
  · obtain ⟨spec, hspec, rfl⟩ := hknown
    obtain ⟨slot, r, -, hrule, hfollows⟩ := hall.ruleOf?_eq_some hnumbered hspec
    rw [isFramed, hrule]
    refine hfollows.framed.trans (Bool.eq_iff_iff.2 ?_)
    simp only [framedIn, List.any_eq_true, Bool.and_eq_true, beq_iff_eq]
    constructor
    · exact fun hframed => ⟨spec, hspec, rfl, hframed⟩
    · rintro ⟨other, hother, hnumber, hframed⟩
      exact eq_of_number_eq hnumbered hother hspec hnumber ▸ hframed
  · have hnew : ∀ spec ∈ specs, spec.number ≠ number := fun spec hspec hnumber =>
      hknown ⟨spec, hspec, hnumber⟩
    rw [isFramed, hall.ruleOf?_eq_none hnew]
    refine (List.any_eq_false.2 fun spec hspec => ?_).symm
    simp [hnew spec hspec]

/-- **A field that is not accepted** (`Content.accepts`) leaves the message as it is. -/
theorem applyField_of_new {field : Field} (hnew : ∀ spec ∈ specs, spec.number = field.number →
    spec.content.accepts field.payload.type = false) (s : σ) :
    applyField rules s field = some s := by
  obtain ⟨slots, hall, -⟩ := h
  by_cases hknown : ∃ spec ∈ specs, spec.number = field.number
  · obtain ⟨spec, hspec, hnumber⟩ := hknown
    obtain ⟨slot, r, -, hrule, hfollows⟩ := hall.ruleOf?_eq_some hnumbered hspec
    rw [applyField, ← hnumber, hrule]
    exact hfollows.ignores _ s (hnew spec hspec hnumber)
  · rw [applyField, hall.ruleOf?_eq_none fun spec hspec hnumber => hknown ⟨spec, hspec, hnumber⟩]

/-- **Fields of different numbers commute** under `applyField`, unless they belong to one choice. -/
theorem applyField_comm {f g : Field} (hne : f.number ≠ g.number)
    (hchoice : ∀ a ∈ specs, ∀ b ∈ specs, a.number = f.number → b.number = g.number →
      ¬ a.Exclusive b) (s : σ) :
    (applyField rules s f).bind (applyField rules · g) =
      (applyField rules s g).bind (applyField rules · f) := by
  obtain ⟨slots, hall, hpairs⟩ := h
  have hunknown : ∀ k : Field, (¬ ∃ spec ∈ specs, spec.number = k.number) →
      ∀ s, applyField rules s k = some s := by
    intro k hk s
    rw [applyField, hall.ruleOf?_eq_none fun spec hspec hnumber => hk ⟨spec, hspec, hnumber⟩]
  by_cases hf : ∃ spec ∈ specs, spec.number = f.number
  · by_cases hg : ∃ spec ∈ specs, spec.number = g.number
    · obtain ⟨a, ha, hfa⟩ := hf
      obtain ⟨b, hb, hgb⟩ := hg
      obtain ⟨p, r, hap, hr, hfollows⟩ := hall.ruleOf?_eq_some hnumbered ha
      obtain ⟨q, r', hbq, hr', hfollows'⟩ := hall.ruleOf?_eq_some hnumbered hb
      have hab : (a, p) ≠ (b, q) := by
        intro heq
        exact hne (hfa ▸ hgb ▸ congrArg (·.1.number) heq)
      have hapart := (hpairs.forall hap hbq hab).resolve_left (hchoice a ha b hb hfa hgb)
      simp only [applyField, ← hfa, ← hgb, hr, hr']
      exact hfollows.confined.comm hfollows'.confined hapart _ _ s
    · simp only [hunknown g hg, Option.bind_some, Option.bind_fun_some]
  · simp only [hunknown f hf, Option.bind_some, Option.bind_fun_some]

/-- Repeated numbers are added by `add` one after the other, however they are cut into fields. -/
theorem exists_add {spec : FieldSpec K} (hspec : spec ∈ specs) {type : WireType}
    (hcontent : spec.content = .numbers type) : ∃ add : List Nat → σ → Option σ,
      (∀ s, add [] s = some s) ∧ (∀ xs ys s, add (xs ++ ys) s = (add xs s).bind (add ys)) ∧
      ∀ payload xs s, payload.numbers type = some xs →
        applyField rules s ⟨spec.number, payload⟩ = add xs s := by
  obtain ⟨slots, hall, -⟩ := h
  obtain ⟨slot, r, -, hrule, hfollows⟩ := hall.ruleOf?_eq_some hnumbered hspec
  have hsuits := hfollows.suits
  rw [hcontent] at hsuits
  simp only [applyField, hrule]
  exact hsuits

/-- A message in a field is told by what its codec reads, and `applyField` does not look at more of
it. -/
theorem applyField_congr {spec : FieldSpec K} (hspec : spec ∈ specs) {k : K}
    (hcontent : spec.content = .message k) {content content' : Bytes} {lacking lacking' : Nat}
    (heq : (codecs k).read lacking content = (codecs k).read lacking' content') (s : σ) :
    applyField rules s ⟨spec.number, .bytes content lacking⟩ =
      applyField rules s ⟨spec.number, .bytes content' lacking'⟩ := by
  obtain ⟨slots, hall, -⟩ := h
  obtain ⟨slot, r, -, hrule, hfollows⟩ := hall.ruleOf?_eq_some hnumbered hspec
  have hsuits := hfollows.suits
  rw [hcontent] at hsuits
  simp only [applyField, hrule]
  exact hsuits _ _ _ _ s heq

end Conforms

end Format

end TensorGraph.Wire
