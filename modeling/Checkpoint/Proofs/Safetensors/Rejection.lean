import Checkpoint.Proofs.Json.Reading
import Checkpoint.Proofs.Safetensors.Header
import Checkpoint.Proofs.Safetensors.Reading
import Checkpoint.Proofs.Text

/-! How headers are refused, whatever the bytes: as malformed headers or unknown types, in messages that
can be spelled. -/

namespace Checkpoint

/-- All numbers of a message can be spelled. -/
def HeaderError.Spelled : HeaderError → Prop
  | .lengthMissing n | .digitLimit n => Printable n
  | .tooLarge m n | .truncated m n => Printable m ∧ Printable n
  | .syntaxFault _ line column position => Printable line ∧ Printable column ∧ Printable position
  | .shape _ shown | .offsets _ shown | .endBeforeBegin _ shown =>
    ∃ v : Json.Value, v.Printable ∧ shown = v.shown
  | .span _ actual expected dims =>
    Printable actual.natAbs ∧ Printable expected.natAbs ∧ ∀ n ∈ dims, Printable n
  | .overlap _ position first last | .gap _ position first last =>
    Printable position ∧ Printable first ∧ Printable last
  | .payload covered held => Printable covered ∧ Printable held.natAbs
  | .notUtf8 | .notAnObject | .duplicateKey _ | .metadata | .reservedName | .entryNotAnObject _
  | .missingField .. | .dtypeNotText _ => True

/-- A header is refused as malformed, or for the name of a type, in words that can be spelled. -/
def Error.IsRefusal : Error → Prop
  | .malformedHeader cause => cause.Spelled
  | .unsupportedDType (.unknownTag _) => True
  | _ => False

namespace Safetensors

open Effect Checkpoint.Stream

open Json (Value)

/-! ### Documents -/

/-- An entry as the document can give it: a range, and numbers that can be spelled. -/
structure Entry.Sensible (e : Entry) : Prop where
  ordered : e.start ≤ e.stop
  stop : Printable e.stop
  shape : ∀ n ∈ e.shape, Printable n

theorem printable_counts {v : Value} {dims : List Nat} (hv : v.Printable)
    (h : counts? v = some dims) : ∀ n ∈ dims, Printable n := by
  cases hv with
  | @array items each =>
    unfold counts? at h
    dsimp only at h
    induction items generalizing dims with
    | nil =>
      cases h
      exact List.forall_mem_nil _
    | cons item items ih =>
      rw [List.forall_mem_cons] at each
      simp only [List.mapM_cons, Option.bind_eq_bind, Option.bind_eq_some_iff, Option.pure_def,
        Option.some.injEq] at h
      obtain ⟨n, found, others, listed, rfl⟩ := h
      refine List.forall_mem_cons.2 ⟨?_, ih each.2 listed⟩
      split at found
      · cases found
        cases each.1 with
        | int small => exact small
      · cases found
  | _ => cases h

theorem gives_field (name : Text) {fields : List (Text × Value)} (h : ∀ f ∈ fields, f.2.Printable)
    (key : String) : Gives (Entry.field name fields key) Value.Printable HeaderError.Spelled := by
  unfold Entry.field
  split
  · next v found => exact h _ (List.mem_of_find?_eq_some found)
  · trivial

theorem gives_ofJson (name : Text) {v : Value} (hv : v.Printable) :
    Gives (Entry.ofJson name v) Entry.Sensible Error.IsRefusal := by
  cases hv with
  | @object fields each =>
    rw [Entry.ofJson]
    have three : Gives (Except.mapError Error.malformedHeader do
        return (← Entry.field name fields "dtype", ← Entry.field name fields "shape",
          ← Entry.field name fields "data_offsets"))
        (fun found => found.2.1.Printable ∧ found.2.2.Printable) Error.IsRefusal := by
      apply Gives.mapError
      refine (gives_field name each _).bind fun tag _ => ?_
      refine (gives_field name each _).bind fun shape hs => ?_
      refine (gives_field name each _).bind fun offsets ho => ?_
      exact ⟨hs, ho⟩
    refine three.bind fun found printable => ?_
    obtain ⟨tag, shape, offsets⟩ := found
    obtain ⟨hs, ho⟩ := printable
    dsimp only
    split
    · split
      · exact ⟨shape, hs, rfl⟩
      · next dims counted =>
        split
        · next start stop counted' =>
          split
          · exact ⟨offsets, ho, rfl⟩
          · next ordered =>
            split
            · have ends := printable_counts ho counted'
              exact ⟨Nat.le_of_not_lt ordered, ends stop (by simp), printable_counts hs counted⟩
            · trivial
        · exact ⟨offsets, ho, rfl⟩
    · trivial
  | _ => trivial

/-- All entries of a header are as the document can give them. -/
def Header.Sensible (h : Header) : Prop := ∀ e ∈ h.entries, e.Sensible

theorem gives_textPairs (pairs : List (Value × Value)) :
    Gives (textPairs pairs) (fun _ => True) Error.IsRefusal := by
  induction pairs with
  | nil => trivial
  | cons pair pairs ih =>
    unfold textPairs
    split
    · next found => 
      cases found
    · next found =>
      cases found
      exact ih.bind fun _ _ => trivial
    · trivial

theorem gives_enter {h : Header} (sensible : h.Sensible) {field : Text × Value}
    (hf : field.2.Printable) : Gives (h.enter field) Header.Sensible Error.IsRefusal := by
  obtain ⟨key, v⟩ := field
  unfold Header.enter
  dsimp only
  split
  · split
    · exact (gives_textPairs _).bind fun _ _ => sensible
    · trivial
  · refine (gives_ofJson key hf).bind fun e he => ?_
    exact List.forall_mem_append.2 ⟨sensible, List.forall_mem_singleton.2 he⟩

theorem gives_enterAll {h : Header} (sensible : h.Sensible) {fields : List (Text × Value)}
    (each : ∀ f ∈ fields, f.2.Printable) :
    Gives (fields.foldlM Header.enter h) Header.Sensible Error.IsRefusal := by
  induction fields generalizing h with
  | nil => exact sensible
  | cons field fields ih =>
    rw [List.forall_mem_cons] at each
    rw [List.foldlM_cons]
    exact (gives_enter sensible each.1).bind fun _ sensible => ih sensible each.2

/-- Whatever text a header is read from, its numbers can be spelled. -/
theorem Header.sensible_of_ofText {t : Text} {h : Header} (parsed : ofText t = .ok h) : h.Sensible := by
  obtain ⟨fields, document, entered⟩ := ofText_eq_ok.1 parsed
  obtain ⟨regular, -⟩ := (Json.gives_parse t).of_ok document
  cases regular.printable with
  | object each => exact (gives_enterAll (h := {}) (List.forall_mem_nil _) each).of_ok entered

theorem gives_ofText {t : Text} (short : Printable (t.utf8.length + 1)) :
    Gives (Header.ofText t) Header.Sensible Error.IsRefusal := by
  have parsed := Json.gives_parse t
  have spelled {n : Nat} (h : n ≤ t.utf8.length + 1) : Printable n := short.of_le h
  unfold Header.ofText
  split
  · next parse =>
    obtain ⟨hl, hc, hp⟩ := parsed.of_error parse
    exact ⟨spelled hl, spelled hc, spelled (by omega)⟩
  · next parse => exact spelled (Nat.le_succ_of_le (parsed.of_error parse))
  · trivial
  · next fields parse =>
    obtain ⟨regular, -⟩ := parsed.of_ok parse
    cases regular.printable with
    | object each => exact gives_enterAll (h := {}) (List.forall_mem_nil _) each
  · trivial

/-! ### Ranges -/

/-- Some entry needs another number of bytes than it has, one that is too long to be spelled. -/
def Header.Unspeakable (h : Header) : Prop :=
  ∃ e ∈ h.entries, e.size ≠ e.needed ∧ ¬ Printable e.needed

theorem gives_checkSizes {entries : List Entry} (sensible : ∀ e ∈ entries, e.Sensible) :
    Gives (Header.checkSizes entries) (fun _ => True) fun e => e.IsRefusal ∨
      e = .rangeFault .digits ∧ ∃ e ∈ entries, e.size ≠ e.needed ∧ ¬ Printable e.needed := by
  induction entries with
  | nil => trivial
  | cons e entries ih =>
    rw [List.forall_mem_cons] at sensible
    unfold Header.checkSizes
    split
    · apply (ih sensible.2).mono (fun _ h => h)
      rintro _ (refusal | ⟨rfl, e', he', wrong⟩)
      · exact .inl refusal
      · exact .inr ⟨rfl, e', List.mem_cons_of_mem _ he', wrong⟩
    · next wrong =>
      cases spelled : Decimal.isPrintable e.needed with
      | true =>
        have size : Printable e.size := sensible.1.stop.of_le (Nat.sub_le ..)
        exact .inl ⟨size, isPrintable_iff.1 spelled, sensible.1.shape⟩
      | false =>
        refine .inr ⟨rfl, e, List.mem_cons_self, wrong, fun printable => ?_⟩
        rw [isPrintable_iff.2 printable] at spelled
        cases spelled

theorem gives_checkOrder {position : Nat} {entries : List Entry} (printable : Printable position)
    (sensible : ∀ e ∈ entries, e.Sensible) :
    Gives (Header.checkOrder position entries) Printable HeaderError.Spelled := by
  induction entries generalizing position with
  | nil => exact printable
  | cons e entries ih =>
    rw [List.forall_mem_cons] at sensible
    have start : Printable e.start := sensible.1.stop.of_le sensible.1.ordered
    unfold Header.checkOrder
    split
    · exact ih sensible.1.stop sensible.2
    · split
      · exact ⟨printable, start, sensible.1.stop⟩
      · exact ⟨printable, start, sensible.1.stop⟩

theorem gives_validate {h : Header} (sensible : h.Sensible) {payload : Option Int}
    (printable : ∀ held ∈ payload, Printable held.natAbs) :
    Gives (h.validate payload) (fun _ => True) fun e => e.IsRefusal ∨
      e = .rangeFault .digits ∧ h.Unspeakable := by
  have zero : Printable 0 := Nat.pow_pos (by decide)
  have sorted : ∀ e ∈ h.inFileOrder, e.Sensible := fun e he => sensible e (List.mem_mergeSort.1 he)
  refine (gives_checkSizes sensible).bind fun _ _ => ?_
  refine Gives.bind (P := Printable) ?_ fun covered short => ?_
  · exact ((gives_checkOrder zero sorted).mono (fun _ h => h) fun _ h => .inl h).mapError
  · cases payload with
    | none => trivial
    | some held =>
      dsimp only
      split
      · exact .inl ⟨short, printable held rfl⟩
      · trivial

theorem gives_decode {bytes : Bytes} (short : Printable (bytes.length + 1)) {payload : Option Int}
    (printable : ∀ held ∈ payload, Printable held.natAbs) :
    Gives (Header.decode bytes payload) (fun _ => True) fun e => e.IsRefusal ∨
      e = .rangeFault .digits ∧ ∃ t h, Text.ofStrictUtf8? bytes = some t ∧ Header.ofText t = .ok h ∧
        h.Unspeakable := by
  unfold Header.decode
  split
  · exact .inl trivial
  · next t decoded =>
    have length := Text.length_utf8_of_ofStrictUtf8? decoded
    have read := gives_ofText (short.of_le (Nat.succ_le_succ length))
    cases parsed : Header.ofText t with
    | error e => exact .inl (read.of_error parsed)
    | ok h =>
      refine Gives.bind (x := h.validate payload) (P := fun _ => True) ?_ fun _ _ => trivial
      apply (gives_validate (read.of_ok parsed) printable).mono (fun _ h => h)
      rintro _ (refusal | ⟨rfl, unspeakable⟩)
      · exact .inl refusal
      · exact .inr ⟨rfl, t, h, decoded, parsed, unspeakable⟩

/-! ### Streams -/

/-- The length of the header that a stream announces. -/
def announced (s : Stream) : Nat :=
  Bytes.fromLittleEndian ((s.content.drop s.position).take Header.lengthSize)

/-- What stands where the text of the header is announced. -/
def bodyOf (s : Stream) : Bytes :=
  ((s.content.drop s.position).drop Header.lengthSize).take (announced s)

/-- Numbers of bytes can be spelled. -/
theorem printable_of_lt {n : Nat} (h : n < 256 ^ 9) : Printable n :=
  Nat.lt_of_lt_of_le h (Nat.le_trans (by decide : 256 ^ 9 ≤ 10 ^ 22)
    (Nat.pow_le_pow_right (by decide) (by decide)))

theorem readFault?_ne_rawStream {s : Stream} {size : Nat} {e : Error} (h : s.readFault? size = some e)
    (reason : Text) : e ≠ .rawStream reason := by
  unfold readFault? at h
  split at h
  · cases h
    nofun
  · split at h
    · cases h
      nofun
    · cases h

theorem ensures_readPart_healthy {s : Stream} {size : Nat} {Q : Bytes → Stream → Prop}
    {E : Error → Stream → Prop} (h : s.Healthy)
    (hq : ∀ calls, Q ((s.content.drop s.position).take size)
      (s.after calls s.content (s.position + ((s.content.drop s.position).take size).length)))
    (hE : ∀ fault, s.readFault? size = some fault → ∀ calls,
      E fault (s.after calls s.content s.position)) : (readPart size).Ensures s Q E := by
  apply ensures_describing
  apply ensures_tryRead h.steady
  · exact fun _ => hq
  · exact fun fault found calls => ⟨hE fault found calls, readFault?_ne_rawStream found⟩

/-- The ways in which a header may fail to be read from a stream without faults: it is refused; so long a
text cannot be read at once; or the message about the size of an entry cannot be spelled. -/
inductive Unread (config : Config) (s : Stream) : Error → Prop
  | refused {e : Error} : e.IsRefusal → Unread config s e
  | oversized {fault : Error} : announced s ≤ config.maxHeaderSize →
    s.readFault? (announced s) = some fault → Unread config s fault
  | unspeakable {t : Text} {h : Header} : Text.ofStrictUtf8? (bodyOf s) = some t →
    Header.ofText t = .ok h → h.Unspeakable → Unread config s (.rangeFault .digits)

/-- The text of a header is read from behind its length. -/
theorem ensures_readBody {s : Stream} (healthy : s.Healthy) (calls : List StreamMethod) :
    (readPart (announced s)).Ensures (s.moved calls Header.lengthSize)
      (fun body t => body = bodyOf s ∧
        ∃ calls, t = s.moved calls (Header.lengthSize + (bodyOf s).length))
      (fun fault _ => s.readFault? (announced s) = some fault) := by
  have body : (s.content.drop (s.position + Header.lengthSize)).take (announced s) = bodyOf s := by
    rw [bodyOf, List.drop_drop]
  apply ensures_readPart_healthy (healthy.after _ _ _)
  · intro calls
    refine ⟨body, calls, ?_⟩
    rw [moved, ← Nat.add_assoc, ← body]
    rfl
  · exact fun fault found _ => found

/-- The header of a stream without faults is what its text is decoded to, unless the length or the text is
not there, the text is too long, or it cannot be read at once. -/
theorem ensures_readHeader_cases {s : Stream} {config : Config} {Q : Header → Stream → Prop}
    {E : Error → Stream → Prop} (healthy : s.Healthy) (small : s.content.length < sizeLimit)
    (missing : ∀ n ≤ Header.lengthSize, ∀ t, E (.malformedHeader (.lengthMissing n)) t)
    (large : config.maxHeaderSize < announced s → ∀ t,
      E (.malformedHeader (.tooLarge (announced s) config.maxHeaderSize)) t)
    (oversized : announced s ≤ config.maxHeaderSize → ∀ fault,
      s.readFault? (announced s) = some fault → ∀ t, E fault t)
    (truncated : ∀ t, E (.malformedHeader (.truncated (announced s) (bodyOf s).length)) t)
    (decoded : ((s.content.drop s.position).take Header.lengthSize).length = Header.lengthSize →
      announced s ≤ config.maxHeaderSize → (bodyOf s).length = announced s →
      s.position + (Header.lengthSize + (bodyOf s).length) ≤ s.content.length → ∀ calls,
      (Effect.ofExcept (Header.decode (bodyOf s) (some ((s.content.length : Int) -
        (s.position + (Header.lengthSize + (bodyOf s).length) : Nat))))).Ensures
        (s.moved calls (Header.lengthSize + (bodyOf s).length)) Q E) :
    (readHeader config).Ensures s Q E := by
  unfold readHeader
  rw [ensures_bind]
  apply ensures_readPart_healthy healthy
  swap
  · intro fault found
    have none : s.readFault? Header.lengthSize = none := by
      simp [readFault?, Header.lengthSize, sizeLimit, fileSizeLimit, fileReadLimit]
    rw [none] at found
    cases found
  intro calls
  split
  · rw [ensures_bind, ensures_throw]
    exact missing _ (List.length_take_le ..) _
  next whole =>
  have whole := not_not.1 whole
  rw [whole]
  change Ensures (if config.maxHeaderSize < announced s then _ else _) _ _ _
  split
  · next past =>
    rw [ensures_bind, ensures_throw]
    exact large past _
  next fits =>
  have fits := Nat.le_of_not_lt fits
  change Ensures (readPart (announced s) >>= _) _ _ _
  rw [ensures_bind]
  apply (ensures_readBody healthy calls).mono
  swap
  · exact fun fault t found => oversized fits fault found t
  rintro _ _ ⟨rfl, calls, rfl⟩
  split
  · rw [ensures_bind, ensures_throw]
    exact truncated _
  next found =>
  have behind : s.position + (Header.lengthSize + (bodyOf s).length) ≤ s.content.length := by
    have positive : 0 < Header.lengthSize := by
      decide
    rw [bodyOf, List.length_take, List.length_drop, List.length_drop]
    have length := whole
    rw [List.length_take, List.length_drop] at length
    omega
  rw [ensures_bind]
  apply ensures_remaining_healthy (healthy.after _ _ _) (Nat.lt_of_le_of_lt behind small)
  exact decoded whole fits (not_not.1 found) behind

theorem ensures_readHeader_healthy {s : Stream} {config : Config} (healthy : s.Healthy)
    (small : s.content.length < sizeLimit) :
    (readHeader config).Ensures s (fun _ _ => True) fun e _ => Unread config s e := by
  have announced_lt : announced s < 256 ^ 9 := by
    have read := Bytes.fromLittleEndian_lt ((s.content.drop s.position).take Header.lengthSize)
    have start_le : ((s.content.drop s.position).take Header.lengthSize).length ≤ Header.lengthSize :=
      List.length_take_le ..
    exact Nat.lt_of_lt_of_le read (Nat.pow_le_pow_right (by decide) (Nat.le_succ_of_le start_le))
  have limit : sizeLimit < 256 ^ 9 := by
    decide
  have printable {n : Nat} (h : n ≤ announced s) : Printable n :=
    printable_of_lt (Nat.lt_of_le_of_lt h announced_lt)
  have length : (bodyOf s).length ≤ announced s := List.length_take_le ..
  apply ensures_readHeader_cases healthy small
  · exact fun n le _ => .refused (printable_of_lt (Nat.lt_of_le_of_lt le (by decide)))
  · exact fun large _ => .refused ⟨printable (Nat.le_refl _), printable (Nat.le_of_lt large)⟩
  · exact fun fits fault found _ => .oversized fits found
  · exact fun _ => .refused ⟨printable (Nat.le_refl _), printable length⟩
  · intro whole fits found behind calls
    have held : ∀ held ∈ some ((s.content.length : Int) -
        (s.position + (Header.lengthSize + (bodyOf s).length) : Nat)), Printable held.natAbs := by
      rintro _ ⟨⟩
      exact printable_of_lt (by omega)
    have short : Printable ((bodyOf s).length + 1) := printable_of_lt (by omega)
    apply ensures_ofExcept (fun _ _ => trivial)
    intro e failed
    obtain refusal | ⟨rfl, t, h, decoded, parsed, unspeakable⟩ :=
      (gives_decode short held).of_error failed
    · exact .refused refusal
    · exact .unspeakable decoded parsed unspeakable

/-- A header is read from a stream without faults, or refused as malformed or for the name of a type.
All else that can happen is that so long a text cannot be read at once, and that the message about the
size of an entry cannot be spelled. -/
theorem readHeader_refusal {s t : Stream} {config : Config} {e : Error} (healthy : s.Healthy)
    (small : s.content.length < sizeLimit) (failed : (readHeader config).perform s = (.error e, t)) :
    Unread config s e :=
  (ensures_readHeader_healthy healthy small).of_error failed

/-- A file with a text in the place of its header. -/
def fileWith (body payload : Bytes) : Bytes :=
  Bytes.littleEndian Header.lengthSize body.length ++ body ++ payload

theorem readHeader_fileWith {config : Config} {body payload : Bytes} {e : Error}
    (fits : body.length ≤ config.maxHeaderSize) (small : (fileWith body payload).length < sizeLimit)
    (failed : Header.decode body (some payload.length) = .error e) :
    ∃ t, (readHeader config).perform (.ofBytes (fileWith body payload)) = (.error e, t) := by
  have reading : (readHeader config).Ensures (.ofBytes (fileWith body payload)) (fun _ _ => False)
      fun e' _ => e' = e := by
    apply ensures_tryReadHeader (offers_ofBytes small) fits
    · exact fun header decoded => nomatch failed.symm.trans decoded
    · intro e' failed' _
      exact (Except.error.inj (failed.symm.trans failed')).symm
  cases run : (readHeader config).perform (.ofBytes (fileWith body payload)) with
  | mk result t =>
    cases result with
    | ok header => exact (reading.of_ok run).elim
    | error e' => exact reading.of_error run ▸ ⟨t, rfl⟩

/-- A header that names a type that there is not. -/
def unknownType : Text := "\x7b\"a\":\x7b\"dtype\":\"F31\",\"shape\":[],\"data_offsets\":[0,0]\x7d\x7d"

theorem readHeader_refusal_unknownType : ∃ e t,
    (readHeader {}).perform (.ofBytes (fileWith unknownType.utf8 [])) = (.error e, t) ∧
      Unread {} (.ofBytes (fileWith unknownType.utf8 [])) e := by
  have small : (fileWith unknownType.utf8 []).length < sizeLimit := by
    decide +kernel
  have failed : Header.decode unknownType.utf8 (some 0) =
      .error (.unsupportedDType (.unknownTag "F31")) := by
    have parsed : Header.ofText unknownType = .error (.unsupportedDType (.unknownTag "F31")) := by
      decide +kernel
    rw [Header.decode, Text.ofStrictUtf8?_utf8 (by decide +kernel)]
    simp only [parsed]
    rfl
  obtain ⟨t, run⟩ := readHeader_fileWith (by decide +kernel : _ ≤ ({} : Config).maxHeaderSize) small failed
  exact ⟨_, t, run, readHeader_refusal ⟨rfl, rfl, rfl, rfl⟩ small run⟩

/-! ### Sizes that cannot be spelled -/

/-- One square tensor that is given four bytes. -/
def squareHeader (side : Nat) : Header :=
  { entries := [{ name := "a", dtype := .float32, shape := [side, side], start := 0, stop := 4 }] }

theorem length_squareHeader (side : Nat) :
    (Value.object (squareHeader side).fields).compact.length = 54 + 2 * (Text.ofNat side).length := by
  have digits (n : Nat) : (Value.int n).compact = Text.ofNat n := rfl
  have words : [Value.literal "a", Value.literal "dtype",
      (Value.text (DType.float32.tag?.getD default)).compact, Value.literal "shape",
      Value.literal "data_offsets", Text.ofNat 0, Text.ofNat 4, ":", ","].map (·.points.length) =
        [3, 7, 5, 7, 14, 1, 1, 1, 1] := by
    decide
  simp only [List.map_cons, List.map_nil, List.cons.injEq, and_true] at words
  simp only [Header.fields, squareHeader, Entry.document, Text.length, Json.points_object,
    Json.points_array, Json.spelling, Text.intercalate, Entry.count, Text.points_append, List.map_cons,
    List.map_nil, Option.toList_none, List.nil_append, List.length_append, List.length_cons,
    List.length_nil, digits, words]
  omega

theorem checkSizes_unspeakable {e : Entry} (wrong : e.size ≠ e.needed) (long : ¬ Printable e.needed)
    (entries : List Entry) : Header.checkSizes (e :: entries) = .error (.rangeFault .digits) := by
  unfold Header.checkSizes
  rw [if_neg wrong]
  cases spelled : Decimal.isPrintable e.needed with
  | true => exact absurd (isPrintable_iff.1 spelled) long
  | false => rfl

theorem strict_squareHeader (side : Nat) : (squareHeader side).Strict where
  tagged := List.forall_mem_singleton.2 rfl
  names := List.forall_mem_singleton.2 (by decide : Text.IsStrict "a")
  metadata := nofun

theorem validate_squareHeader {side : Nat} (long : ¬ Printable (side * side)) (payload : Option Int) :
    (squareHeader side).validate payload = .error (.rangeFault .digits) := by
  have needed : 10 ^ Decimal.digitLimit ≤ side * (side * 1) * 4 := by
    rw [Nat.mul_one]
    exact (Nat.not_lt.1 long).trans (Nat.le_mul_of_pos_right _ (by decide))
  have short : 4 < 10 ^ Decimal.digitLimit :=
    Nat.lt_of_lt_of_le (by decide : 4 < 10) (Nat.le_self_pow (by decide) 10)
  have sizes : Header.checkSizes (squareHeader side).entries = .error (.rangeFault .digits) := by
    apply checkSizes_unspeakable
    · exact Nat.ne_of_lt (Nat.lt_of_lt_of_le short needed)
    · exact Nat.not_lt.2 needed
  rw [Header.validate, sizes]
  rfl

section Square

variable {side : Nat} (spelled : Printable side)
include spelled

theorem length_body_squareHeader : (squareHeader side).body.length ≤ 34616 := by
  have digits : (Text.ofNat side).length ≤ Decimal.digitLimit := by
    rw [Text.length, Text.points_ofNat, List.length_map]
    exact Nat.toDigits_length 10 _ _ (by decide) spelled
  have points := length_squareHeader side
  have bytes := Text.length_utf8_le (Value.object (squareHeader side).fields).compact
  unfold Decimal.digitLimit at digits
  exact bytes.trans (by omega)

theorem exact_squareHeader : (squareHeader side).Exact where
  distinct := List.nodup_singleton _
  unreserved := (by decide : metadataKey ∉ [("a" : Text)])
  entries := by
    have small {n : Nat} (h : n < 10) : Printable n :=
      Nat.lt_of_lt_of_le h (Nat.le_self_pow (by decide) 10)
    refine List.forall_mem_singleton.2 ⟨rfl, Nat.zero_le 4, ?_⟩
    simp only [List.forall_mem_cons]
    exact ⟨small (by decide), small (by decide), spelled, spelled, List.forall_mem_nil _⟩
  keys := nofun

/-- The header of a square whose side can be spelled, but not its area, is neither read nor refused. -/
theorem readHeader_squareHeader (long : ¬ Printable (side * side)) :
    ∃ t, (readHeader {}).perform (.ofBytes (fileWith (squareHeader side).body [0, 0, 0, 0])) =
      (.error (.rangeFault .digits), t) := by
  have length := length_body_squareHeader spelled
  apply readHeader_fileWith (length.trans (by decide))
  · unfold fileWith
    rw [List.length_append, List.length_append, Bytes.length_littleEndian]
    exact Nat.lt_of_le_of_lt (Nat.add_le_add_right (Nat.add_le_add_left length _) _) (by decide)
  · rw [Header.decode, Header.body, Text.ofStrictUtf8?_utf8 (strict_squareHeader side).isStrict]
    simp only [(exact_squareHeader spelled).ofText_compact, bind, Except.bind,
      validate_squareHeader long]

end Square

/-- Half the digits that are spelled, and some more. -/
def halfDigits : Nat := 2200

theorem readHeader_refusal_longSquare :
    (∃ t, (readHeader {}).perform (.ofBytes (fileWith (squareHeader (10 ^ halfDigits)).body
      [0, 0, 0, 0])) = (.error (.rangeFault .digits), t)) ∧ ¬ Error.IsRefusal (.rangeFault .digits) := by
  have spelled : Printable (10 ^ halfDigits) := Nat.pow_lt_pow_right (by decide) (by decide)
  have long : ¬ Printable (10 ^ halfDigits * 10 ^ halfDigits) := by
    rw [Printable, Nat.not_lt, ← Nat.pow_add]
    exact Nat.pow_le_pow_right (by decide) (by decide)
  exact ⟨readHeader_squareHeader spelled long, id⟩

end Safetensors

end Checkpoint
