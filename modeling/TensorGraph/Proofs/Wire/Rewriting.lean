import TensorGraph.Proofs.Wire.Parsing
import TensorGraph.Proofs.Wire.Schema

/-! # What a writer is free to choose

The same message can be written in many ways. Unknown fields, and fields of another wire type than
the schema says, may stand between any two fields; fields of different numbers may change places;
repeated numbers may be cut into payloads anywhere; and all of this may be done to a message inside
another one. None of it changes what is read (`Rewrites.read_eq`).

The last frame of a message may be cut off at the end of the input. A message that is cut off can be
rewritten as far as it goes, and repeated numbers up to the cut can be put into frames that are cut
off or not, as long as no more is lacking than the message around them lacks. -/

namespace TensorGraph.Wire

variable {K : Type} {Record : K → Type}

/-! ### Rewritten messages -/

/-- A row of fields of one `number` that hold the numbers, one by one or packed. At the end of a
string the last one may be a frame that is cut off. -/
inductive IsRun (framed : Nat → Bool) (levels lacking number : Nat) (type : WireType)
    (last : Bool) : List Nat → Bytes → Prop
  | nil : IsRun framed levels lacking number type last [] []
  | cons {payload : Payload} {xs ys : List Nat} {bytes rest : Bytes}
      (hfield : IsField framed levels ⟨number, payload⟩ bytes)
      (hnumbers : payload.numbers type = some xs)
      (hrest : IsRun framed levels lacking number type last ys rest) :
      IsRun framed levels lacking number type last (xs ++ ys) (bytes ++ rest)
  | cut {payload : Payload} {xs : List Nat} {bytes : Bytes} (hlast : last = true)
      (hcut : IsCut framed lacking ⟨number, payload⟩ bytes)
      (hnumbers : payload.numbers type = some xs) :
      IsRun framed levels lacking number type last xs bytes

/-- **The second string is another way to write the message of the first one.** Messages are of a
kind of the schema, messages and groups are nested at most `levels` deep below them, and `lacking`
bytes may be lacking at their end. -/
inductive Rewrites (fields : K → List (FieldSpec K)) : K → Nat → Nat → Bytes → Bytes → Prop
  /-- A field that is not accepted is put in. -/
  | insert {k : K} {levels lacking : Nat} {others : List Field} {field : Field}
      {before bytes after : Bytes}
      (hbefore : IsRow (framedIn (fields k)) levels others before)
      (hfield : IsField (framedIn (fields k)) levels field bytes)
      (hnew : ∀ spec ∈ fields k, spec.number = field.number →
        spec.content.accepts field.payload.type = false) :
      Rewrites fields k levels lacking (before ++ after) (before ++ (bytes ++ after))
  /-- Two neighbouring fields change places. -/
  | swap {k : K} {levels lacking : Nat} {others : List Field} {f g : Field}
      {before first second after : Bytes}
      (hbefore : IsRow (framedIn (fields k)) levels others before)
      (hfirst : IsField (framedIn (fields k)) levels f first)
      (hsecond : IsField (framedIn (fields k)) levels g second) (hne : f.number ≠ g.number)
      (hchoice : ∀ a ∈ fields k, ∀ b ∈ fields k, a.number = f.number → b.number = g.number →
        ¬ a.Exclusive b) :
      Rewrites fields k levels lacking (before ++ (first ++ (second ++ after)))
        (before ++ (second ++ (first ++ after)))
  /-- Repeated numbers are cut into payloads in another way. -/
  | recut {k : K} {levels lacking : Nat} {others : List Field} {spec : FieldSpec K}
      {type : WireType} {last : Bool} {numbers : List Nat} {before run run' after : Bytes}
      (hbefore : IsRow (framedIn (fields k)) levels others before) (hspec : spec ∈ fields k)
      (hcontent : spec.content = .numbers type)
      (hrun : IsRun (framedIn (fields k)) levels lacking spec.number type last numbers run)
      (hrun' : IsRun (framedIn (fields k)) levels lacking spec.number type last numbers run')
      (hlast : last = true → after = []) :
      Rewrites fields k levels lacking (before ++ (run ++ after)) (before ++ (run' ++ after))
  /-- A message inside the message is rewritten, and its length is adjusted. -/
  | nested {k inner : K} {levels lacking lack : Nat} {others : List Field} {spec : FieldSpec K}
      {before tag length content tag' length' content' after : Bytes}
      (hbefore : IsRow (framedIn (fields k)) (levels + 1) others before) (hspec : spec ∈ fields k)
      (hcontent : spec.content = .message inner)
      (hrewrites : Rewrites fields inner levels lack content content')
      (hheader : IsHeader spec.number content lack tag length)
      (hheader' : IsHeader spec.number content' lack tag' length') (hlack : lack = 0 ∨ after = []) :
      Rewrites fields k (levels + 1) lacking (before ++ (tag ++ (length ++ (content ++ after))))
        (before ++ (tag' ++ (length' ++ (content' ++ after))))

/-- The codecs read messages by rules that conform (`Conforms`) to the schema `fields`. -/
structure Implements (codec : (k : K) → Nat → Codec (Record k)) (fields : K → List (FieldSpec K)) :
    Prop where
  numbered : ∀ k, Numbered ((fields k).map (·.number))
  rules : ∀ k levels, ∃ (rules : List (Rule (Record k))) (empty : Record k)
    (codecs : (k : K) → Codec (Record k)), codec k levels = .ofRules rules levels empty ∧
      Conforms codecs (fields k) rules ∧ ∀ less, levels = less + 1 → codecs = (codec · less)

/-! ### What is read does not change -/

section Format

variable {σ : Type} {rules : List (Rule σ)} {levels lacking : Nat} {fields : List Field}
  {before bytes rest : Bytes} {s : σ}

/-- The message after the fields that fill a string were met, by `readFields` and `applyField`. -/
def absorb (rules : List (Rule σ)) (levels lacking : Nat) (bytes : Bytes) (s : σ) : Option σ :=
  (readFields (isFramed rules) levels lacking bytes).bind fun fields =>
    fields.foldlM (applyField rules) s

theorem read_ofRules (empty : σ) : (Codec.ofRules rules levels empty).read lacking bytes =
    (absorb rules levels lacking bytes empty).map (finishAll rules) :=
  Option.map_bind.symm

theorem absorb_nil : absorb rules levels lacking [] = some := by
  funext s
  rw [absorb, readFields_nil]
  rfl

theorem absorb_append (h : IsRow (isFramed rules) levels fields bytes) :
    absorb rules levels lacking (bytes ++ rest) s =
      (fields.foldlM (applyField rules) s).bind (absorb rules levels lacking rest) := by
  unfold absorb
  rw [readFields_append h, Option.bind_map]
  cases readFields (isFramed rules) levels lacking rest with
  | none => exact (Option.bind_fun_none _).symm
  | some more => exact List.foldlM_append

/-- **Strings that do the same to every message**, by `absorb`, may be exchanged behind a row. -/
theorem read_congr {framed : Nat → Bool} {empty : σ} {tail tail' : Bytes}
    (hframed : isFramed rules = framed) (hbefore : IsRow framed levels fields before)
    (h : ∀ s, absorb rules levels lacking tail s = absorb rules levels lacking tail' s) :
    (Codec.ofRules rules levels empty).read lacking (before ++ tail) =
      (Codec.ofRules rules levels empty).read lacking (before ++ tail') := by
  subst hframed
  rw [read_ofRules, read_ofRules, absorb_append hbefore, absorb_append hbefore, funext h]

theorem absorb_field {field : Field} (h : IsField (isFramed rules) levels field bytes) :
    absorb rules levels lacking (bytes ++ rest) s =
      (applyField rules s field).bind (absorb rules levels lacking rest) := by
  rw [absorb_append (.singleton h), List.foldlM_cons]
  exact congrArg (Option.bind · _) (Option.bind_fun_some _)

theorem absorb_two {f g : Field} {first second : Bytes}
    (hfirst : IsField (isFramed rules) levels f first)
    (hsecond : IsField (isFramed rules) levels g second) :
    absorb rules levels lacking (first ++ (second ++ rest)) s =
      ((applyField rules s f).bind (applyField rules · g)).bind
        (absorb rules levels lacking rest) := by
  rw [absorb_field hfirst, Option.bind_assoc]
  exact congrArg _ (funext fun t => absorb_field hsecond)

variable {number lack : Nat} {tag length content : Bytes}

theorem absorb_frame (hframed : isFramed rules number = true)
    (h : IsHeader number content 0 tag length) :
    absorb rules levels lacking (tag ++ (length ++ (content ++ rest))) s =
      (applyField rules s ⟨number, .bytes content 0⟩).bind (absorb rules levels lacking rest) := by
  have hfield : IsField (isFramed rules) levels ⟨number, .bytes content 0⟩
      (tag ++ (length ++ content)) := by
    refine .plain h.tag (.bytes ?_)
    rw [hframed]
    exact h.length
  rw [← absorb_field hfield]
  simp only [List.append_assoc]

theorem absorb_of_isHeader (hframed : isFramed rules number = true)
    (h : IsHeader number content lack tag length) (s : σ) :
    absorb rules levels lacking (tag ++ (length ++ content)) s =
      if lack ≤ lacking then applyField rules s ⟨number, .bytes content lack⟩ else none := by
  have hne : tag ++ (length ++ content) ≠ [] := by
    intro hnil
    have htag := h.tag
    rw [IsTag, (List.append_eq_nil_iff.1 hnil).1] at htag
    cases htag
  unfold absorb
  rw [readFields_eq_bind hne, readField_of_isHeader hframed h]
  split
  · simp only [Option.bind_some, readFields_nil, Option.map_some, List.foldlM_cons]
    exact Option.bind_fun_some _
  · rfl

/-- A run of fields (`IsRun`) adds its numbers one after the other. -/
theorem IsRun.absorb_append {type : WireType} {last : Bool} {numbers : List Nat}
    (h : IsRun (isFramed rules) levels lacking number type last numbers bytes)
    (hlast : last = true → rest = []) {add : List Nat → σ → Option σ}
    (hnil : ∀ s, add [] s = some s)
    (happend : ∀ xs ys s, add (xs ++ ys) s = (add xs s).bind (add ys))
    (hadd : ∀ payload xs s, payload.numbers type = some xs →
      applyField rules s ⟨number, payload⟩ = add xs s) (s : σ) :
    absorb rules levels lacking (bytes ++ rest) s =
      (add numbers s).bind (absorb rules levels lacking rest) := by
  induction h generalizing s with
  | nil => rw [hnil, Option.bind_some, List.nil_append]
  | @cons payload xs ys bytes after hfield hnumbers _ ih =>
    rw [List.append_assoc, absorb_field hfield, hadd payload xs s hnumbers, happend,
      Option.bind_assoc]
    exact congrArg _ (funext ih)
  | cut htrue hcut hnumbers =>
    obtain rfl := hlast htrue
    obtain ⟨hframed, hheader, -, hle⟩ := hcut
    rw [List.append_nil, absorb_of_isHeader hframed hheader, if_pos hle, hadd _ _ s hnumbers,
      absorb_nil, Option.bind_fun_some]

end Format

variable {codec : (k : K) → Nat → Codec (Record k)} {fields : K → List (FieldSpec K)} {k : K}
  {levels lacking : Nat} {bytes bytes' : Bytes}

theorem framedIn_of_mem {specs : List (FieldSpec K)} {spec : FieldSpec K} (hspec : spec ∈ specs)
    (h : spec.content.framed = true) : framedIn specs spec.number = true :=
  List.any_eq_true.2 ⟨spec, hspec, by rw [h, beq_self_eq_true]; rfl⟩

/-- **What is read does not depend on how a message is written** (`Rewrites`), whatever may be
lacking at its end. -/
theorem Rewrites.read_eq (hcodec : Implements codec fields)
    (h : Rewrites fields k levels lacking bytes bytes') :
    (codec k levels).read lacking bytes = (codec k levels).read lacking bytes' := by
  induction h with
  | @insert k levels lacking others field before bytes after hbefore hfield hnew =>
    obtain ⟨rules, empty, codecs, hrules, hconforms, -⟩ := hcodec.rules k levels
    have hframed := hconforms.isFramed_eq (hcodec.numbered k)
    rw [← hframed] at hfield
    rw [hrules]
    refine read_congr hframed hbefore fun s => ?_
    rw [absorb_field hfield, hconforms.applyField_of_new (hcodec.numbered k) hnew,
      Option.bind_some]
  | @swap k levels lacking others f g before first second after hbefore hfirst hsecond hne
      hchoice =>
    obtain ⟨rules, empty, codecs, hrules, hconforms, -⟩ := hcodec.rules k levels
    have hframed := hconforms.isFramed_eq (hcodec.numbered k)
    rw [← hframed] at hfirst hsecond
    rw [hrules]
    refine read_congr hframed hbefore fun s => ?_
    rw [absorb_two hfirst hsecond, absorb_two hsecond hfirst,
      hconforms.applyField_comm (hcodec.numbered k) hne hchoice]
  | @recut k levels lacking others spec type last numbers before run run' after hbefore hspec
      hcontent hrun hrun' hlast =>
    obtain ⟨rules, empty, codecs, hrules, hconforms, -⟩ := hcodec.rules k levels
    have hframed := hconforms.isFramed_eq (hcodec.numbered k)
    rw [← hframed] at hrun hrun'
    rw [hrules]
    refine read_congr hframed hbefore fun s => ?_
    obtain ⟨add, hnil, happend, hadd⟩ := hconforms.exists_add (hcodec.numbered k) hspec hcontent
    rw [hrun.absorb_append hlast hnil happend hadd, hrun'.absorb_append hlast hnil happend hadd]
  | @nested k inner levels lacking lack others spec before tag length content tag' length'
      content' after hbefore hspec hcontent _ hheader hheader' hlack ih =>
    obtain ⟨rules, empty, codecs, hrules, hconforms, hless⟩ := hcodec.rules k (levels + 1)
    obtain rfl := hless levels rfl
    have hframed := hconforms.isFramed_eq (hcodec.numbered k)
    have hframe : isFramed rules spec.number = true := by
      rw [hframed]
      exact framedIn_of_mem hspec (by rw [hcontent]; rfl)
    have happly : ∀ s, applyField rules s ⟨spec.number, .bytes content lack⟩ =
        applyField rules s ⟨spec.number, .bytes content' lack⟩ :=
      hconforms.applyField_congr (hcodec.numbered k) hspec hcontent ih
    rw [hrules]
    refine read_congr hframed hbefore fun s => ?_
    rcases hlack with rfl | rfl
    · rw [absorb_frame hframe hheader, absorb_frame hframe hheader', happly]
    · simp only [List.append_nil]
      rw [absorb_of_isHeader hframe hheader, absorb_of_isHeader hframe hheader', happly]

end TensorGraph.Wire
