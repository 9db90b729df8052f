import TensorGraph.Load.Description
import TensorGraph.Proofs.Check

/-! # Bytes and streams

What a string of bytes describes does not depend on the limit, which only says how long a string may
be. From a stream one byte more than the limit is read at most: enough to notice that the limit is
exceeded, so that a string that is cut off is never taken for a whole one. A stream that gives a
string (`Stream.Delivers`), in pieces of any sizes, is therefore read like the string. -/

namespace TensorGraph

open Onnx (ModelRecord OperatorSetRecord)

/-! ### What a model describes -/

/-- The first operator set with an empty domain, and no other one, gives the version of operators;
both versions are suitable. -/
structure Onnx.ModelRecord.Describes (model : ModelRecord) (d : Description) : Prop where
  irVersion : d.irVersion = model.irVersion
  supported : 3 ≤ d.irVersion.toInt
  operatorSet : ∃ before set after, model.operatorSets = before ++ set :: after ∧
    (∀ other ∈ before, other.domain ≠ "") ∧ set.domain = "" ∧ d.opsetVersion = set.version
  positive : 0 < d.opsetVersion.toInt
  graph : d.graph = model.graph.getD {}

theorem defaultOperatorSet_eq_ok {model : ModelRecord} {version : Int64} :
    defaultOperatorSet model = .ok version ↔ 0 < version.toInt ∧
      ∃ before set after, model.operatorSets = before ++ set :: after ∧
        (∀ other ∈ before, other.domain ≠ "") ∧ set.domain = "" ∧ version = set.version := by
  simp only [defaultOperatorSet, bind_eq_ok, found_eq_ok, check_eq_ok, pure_eq_ok,
    List.find?_eq_some_iff_append]
  constructor
  · rintro ⟨set, ⟨hdomain, before, after, hsets, hbefore⟩, -, hpos, rfl⟩
    refine ⟨hpos, before, set, after, hsets, fun other hother => ?_, by simpa using hdomain, rfl⟩
    simpa using hbefore other hother
  · rintro ⟨hpos, before, set, after, hsets, hbefore, hdomain, rfl⟩
    refine ⟨set, ⟨by simpa using hdomain, before, after, hsets, fun other hother => ?_⟩, (), hpos,
      rfl⟩
    simpa using hbefore other hother

/-- **The description of a model**, `describe`, is the one that its records tell (`Describes`). -/
theorem describe_eq_ok {model : ModelRecord} {d : Description} :
    model.describe = .ok d ↔ model.Describes d := by
  simp only [ModelRecord.describe, bind_eq_ok, check_eq_ok, defaultOperatorSet_eq_ok, pure_eq_ok]
  constructor
  · rintro ⟨-, hold, version, ⟨hpos, hset⟩, rfl⟩
    exact ⟨rfl, hold, hset, hpos, rfl⟩
  · intro h
    refine ⟨(), h.irVersion ▸ h.supported, d.opsetVersion, ⟨h.positive, h.operatorSet⟩, ?_⟩
    rw [← h.irVersion, ← h.graph]

/-! ### What bytes describe -/

namespace Description

/-- What a string of bytes describes, whatever the limit is: `ModelRecord.describe` after
`ModelRecord.decode?`. -/
def decoded (bytes : Bytes) : Except LoadError Description := do
  let model ← found (ModelRecord.decode? bytes) .malformed
  model.describe

/-- The error reports that a limit is exceeded. -/
def ExceedsLimit (e : LoadError) : Prop := ∃ size limit, e = .tooLarge size limit

theorem avoids_decoded (bytes : Bytes) : Avoids ExceedsLimit (decoded bytes) := by
  refine (Avoids.found nofun).bind fun model _ => (Avoids.check nofun).bind fun _ _ => ?_
  refine Avoids.bind ?_ fun version _ => .pure _
  exact (Avoids.found nofun).bind fun set _ => (Avoids.check nofun).bind fun _ _ => .pure _

theorem ofBytes_of_le {limit : Nat} {bytes : Bytes} (h : bytes.length ≤ limit) :
    ofBytes limit bytes = decoded bytes := by
  rw [ofBytes, check, if_pos h]
  rfl

theorem ofBytes_of_lt {limit : Nat} {bytes : Bytes} (h : limit < bytes.length) :
    ofBytes limit bytes = .error (.tooLarge bytes.length limit) := by
  rw [ofBytes, check, if_neg (Nat.not_le.2 h)]
  rfl

end Description

/-! ### Streams in pieces -/

/-- The stream gives the bytes, in pieces of any sizes, and ends. Reads that are interrupted give
nothing, and what would come after a read of no bytes is not part of the stream. -/
inductive Stream.Delivers : Stream → Bytes → Prop
  | nil : Delivers [] []
  | ended (rest : Stream) : Delivers (.piece [] :: rest) []
  | interrupted {stream : Stream} {bytes : Bytes} (h : Delivers stream bytes) :
    Delivers (.interrupted :: stream) bytes
  | piece {first : Bytes} (hne : first ≠ []) {stream : Stream} {bytes : Bytes}
      (h : Delivers stream bytes) : Delivers (.piece first :: stream) (first ++ bytes)

namespace Stream

variable {first rest : Stream} {bytes : Bytes} {count : Nat}

@[simp] theorem take_zero (stream : Stream) : Stream.take 0 stream = .ok [] := by
  induction stream with
  | nil => rfl
  | cons delivery stream ih =>
    cases delivery with
    | interrupted => exact ih
    | _ => rfl

/-- A piece with bytes is taken by `Stream.take` as far as bytes are asked for, and then what comes
after it. -/
theorem take_piece {first : Bytes} (hne : first ≠ []) (stream : Stream) :
    Stream.take count (.piece first :: stream) =
      (first.take count ++ ·) <$> Stream.take (count - first.length) stream := by
  rw [Stream.take]
  by_cases hcount : count = 0
  · simp [hcount]
  · rw [if_neg (by simp [hcount, hne])]
    rfl

/-- A stream from which as much is taken as `first` gives is not read any further. -/
theorem take_append_of_le (h : first.Delivers bytes) (hle : count ≤ bytes.length) :
    Stream.take count (first ++ rest) = .ok (bytes.take count) := by
  induction h generalizing count with
  | nil =>
    obtain rfl := Nat.le_zero.1 hle
    exact take_zero _
  | ended _ =>
    obtain rfl := Nat.le_zero.1 hle
    exact take_zero _
  | interrupted _ ih => exact ih hle
  | piece hne _ ih =>
    rw [List.length_append] at hle
    rw [List.cons_append, take_piece hne, ih (by omega), List.take_append]
    rfl

theorem take_of_delivers (h : first.Delivers bytes) :
    Stream.take count first = .ok (bytes.take count) := by
  induction h generalizing count with
  | nil => simp [Stream.take]
  | ended rest => simp [Stream.take]
  | interrupted _ ih => exact ih
  | piece hne _ ih =>
    rw [take_piece hne, ih, List.take_append]
    rfl

/-- At most as many bytes are taken as `count` asks for, and only a failure of the stream is one. -/
theorem take_cases (count : Nat) (stream : Stream) :
    Stream.take count stream = .error .readFailed ∨
      ∃ taken, Stream.take count stream = .ok taken ∧ taken.length ≤ count := by
  induction stream generalizing count with
  | nil => exact .inr ⟨[], rfl, Nat.zero_le _⟩
  | cons delivery stream ih =>
    cases delivery with
    | interrupted => exact ih count
    | failure =>
      by_cases hcount : count = 0
      · exact .inr ⟨[], by rw [Stream.take, if_pos hcount], Nat.zero_le _⟩
      · exact .inl (by rw [Stream.take, if_neg hcount])
    | piece bytes =>
      by_cases hne : bytes = []
      · exact .inr ⟨[], by simp [Stream.take, hne], Nat.zero_le _⟩
      · rw [take_piece hne]
        rcases ih (count - bytes.length) with hfail | ⟨taken, htaken, hle⟩
        · exact .inl (by rw [hfail]; rfl)
        · refine .inr ⟨bytes.take count ++ taken, by rw [htaken]; rfl, ?_⟩
          rw [List.length_append, List.length_take]
          omega

end Stream

/-! ### Both ways of reading -/

namespace Description

variable {limit : Nat} {bytes : Bytes} {first rest stream : Stream}

theorem readAhead_of_lt (h : limit + 1 < Size.bound) : readAhead limit = limit + 1 := by
  unfold readAhead
  omega

theorem le_readAhead (h : limit < Size.bound) : limit ≤ readAhead limit := by
  unfold readAhead
  omega

/-- A stream that gives a string within the limit is read by `ofStream` like the string by
`ofBytes`. -/
theorem ofStream_of_delivers (hlimit : limit < Size.bound) (h : stream.Delivers bytes)
    (hle : bytes.length ≤ limit) : ofStream limit stream = ofBytes limit bytes := by
  have htake : bytes.take (readAhead limit) = bytes :=
    List.take_of_length_le (Nat.le_trans hle (le_readAhead hlimit))
  rw [ofStream, Stream.take_of_delivers h, htake]
  rfl

/-- A stream that gives more than the limit is refused, whatever comes after one byte more
(`rest`). -/
theorem ofStream_of_oversized (hlimit : limit + 1 < Size.bound) (h : first.Delivers bytes)
    (hlt : limit < bytes.length) :
    ofStream limit (first ++ rest) = .error (.tooLarge (limit + 1) limit) := by
  have hlength : (bytes.take (limit + 1)).length = limit + 1 := List.length_take_of_le hlt
  rw [ofStream, readAhead_of_lt hlimit, Stream.take_append_of_le h hlt]
  show ofBytes limit (bytes.take (limit + 1)) = _
  rw [ofBytes_of_lt (by omega), hlength]

/-- The greatest limit is exceeded by no stream (`ExceedsLimit`). -/
theorem avoids_ofStream (hlimit : limit + 1 = Size.bound) (stream : Stream) :
    Avoids ExceedsLimit (ofStream limit stream) := by
  have hahead : readAhead limit = limit := by
    unfold readAhead
    omega
  rw [ofStream, hahead]
  rcases Stream.take_cases limit stream with hfail | ⟨taken, htaken, hle⟩
  · rw [hfail]
    exact .error nofun
  · rw [htaken]
    show Avoids ExceedsLimit (ofBytes limit taken)
    rw [ofBytes_of_le hle]
    exact avoids_decoded taken

/-- **Bytes and streams are read alike, and the limit is sharp.** A string of bytes is refused by
`ofBytes` for its size exactly when it is longer than the limit, and otherwise what it describes
(`decoded`) does not depend on the limit. A stream that gives the string (`Stream.Delivers`) is read
like the string; if it is too long, it is refused once it has given one byte more than the limit,
and nothing that comes after this byte matters. The greatest limit refuses nothing. A description
has the versions of the model, of which the first is at least 3 and the second is the positive one
of the first operator set with an empty domain. -/
theorem reading_exact (hlimit : limit < Size.bound) (bytes : Bytes) :
    (ofBytes limit bytes = if bytes.length ≤ limit then decoded bytes
      else .error (.tooLarge bytes.length limit)) ∧
    (∀ size most, decoded bytes ≠ .error (.tooLarge size most)) ∧
    (∀ stream : Stream, stream.Delivers bytes → bytes.length ≤ limit →
      ofStream limit stream = ofBytes limit bytes) ∧
    (∀ first rest : Stream, first.Delivers bytes → limit < bytes.length →
      limit + 1 < Size.bound →
      ofStream limit (first ++ rest) = .error (.tooLarge (limit + 1) limit)) ∧
    (limit + 1 = Size.bound → ∀ (stream : Stream) (size most : Nat),
      ofStream limit stream ≠ .error (.tooLarge size most)) ∧
    (∀ d, decoded bytes = .ok d ↔
      ∃ model, ModelRecord.decode? bytes = some model ∧ model.Describes d) := by
  refine ⟨?_, fun size most h => ?_, fun stream => ofStream_of_delivers hlimit,
    fun first rest h hlt hroom => ofStream_of_oversized hroom h hlt,
    fun hgreatest stream size most h => ?_, fun d => ?_⟩
  · split
    · next hle => exact ofBytes_of_le hle
    · next hlt => exact ofBytes_of_lt (Nat.not_le.1 hlt)
  · exact avoids_decoded bytes _ h ⟨size, most, rfl⟩
  · exact avoids_ofStream hgreatest stream _ h ⟨size, most, rfl⟩
  · simp only [decoded, bind_eq_ok, found_eq_ok, describe_eq_ok]

/-- A model of format version 8 with the operator sets `ml` of version 2 and the default ones of
versions 13 and 11. -/
def twoDefaults : Bytes :=
  [0x08, 0x08, 0x42, 0x06, 0x0a, 0x02, 0x6d, 0x6c, 0x10, 0x02, 0x42, 0x02, 0x10, 0x0d, 0x42, 0x02,
    0x10, 0x0b]

/-- In two pieces, with an interruption between them and an end after them, the 18 bytes of
`twoDefaults` are read under the limit 18, with the version 13; under the limit 17 they are refused
at the last byte, and a failure behind them is not met. -/
theorem reading_exact_twoDefaults :
    (∃ d, ofStream 18 [.piece (twoDefaults.take 3), .interrupted, .piece (twoDefaults.drop 3),
      .piece [], .failure] = .ok d ∧ d.opsetVersion = 13) ∧
    ofStream 17 [.piece (twoDefaults.take 3), .piece (twoDefaults.drop 3), .failure] =
      .error (.tooLarge 18 17) := by
  obtain ⟨hbytes, -, halike, -, -, hdescribed⟩ :=
    reading_exact (show 18 < Size.bound by decide) twoDefaults
  obtain ⟨-, -, -, hrefused, -, -⟩ :=
    reading_exact (show 17 < Size.bound by decide) twoDefaults
  refine ⟨⟨⟨8, 13, {}⟩, ?_, rfl⟩, ?_⟩
  · have hdelivers : Stream.Delivers [.piece (twoDefaults.take 3), .interrupted,
        .piece (twoDefaults.drop 3), .piece [], .failure] twoDefaults :=
      .piece (by decide) (.interrupted (.piece (by decide) (.ended [.failure])))
    rw [halike _ hdelivers (by decide), hbytes, if_pos (by decide)]
    refine (hdescribed _).2 ⟨{
      irVersion := 8
      operatorSets := [{ domain := "ml", version := 2 }, { version := 13 }, { version := 11 }] },
      by with_unfolding_all rfl, rfl, by decide, ?_, by decide, rfl⟩
    exact ⟨[{ domain := "ml", version := 2 }], { version := 13 }, [{ version := 11 }], rfl,
      by decide, rfl, rfl⟩
  · exact hrefused [.piece (twoDefaults.take 3), .piece (twoDefaults.drop 3)] [.failure]
      (.piece (by decide) (.piece (by decide) .nil)) (by decide) (by decide)

end Description

end TensorGraph
