import CliProxy.Adapter.JsonParse
import CliProxy.Lib.Utf8
import CliProxy.Usage.Tracker

/-! # What a crash leaves of the usage history

`save` and `load` of `UsageTracker` byte by byte: `fs.writeFile` truncates `usage.json` and then
writes the text where the file descriptor stands. The process may stop between any two writes; the
next one starts with a load. -/

namespace CliProxy.Usage

open Adapter (Json)

/-! ## The file -/

/-- The texts of numbers: `number` makes the one of `String` of a number text, `print` is
`JSON.stringify`. -/
structure NumberFormat where
  number : List Char → String
  print : ℚ → String
  isNumber_print : ∀ q, Adapter.isNumberText (print q).toList = true
  number_print : ∀ q, number (print q).toList = print q

namespace NumberFormat

variable (F : NumberFormat)

def num (q : ℚ) : Json := .num (F.print q)

def nat (n : Nat) : Json := F.num n

end NumberFormat

def RequestRecord.json (F : NumberFormat) (r : RequestRecord) : Json :=
  .obj [("timestamp", F.nat r.timestamp), ("model", .str r.model),
    ("inputTokens", F.nat r.inputTokens), ("outputTokens", F.nat r.outputTokens),
    ("cacheReadTokens", F.nat r.cacheReadTokens), ("cacheWriteTokens", F.nat r.cacheWriteTokens),
    ("durationMs", F.nat r.durationMs), ("estimatedApiCostUsd", F.num r.estimatedApiCostUsd),
    ("stream", .bool r.stream), ("success", .bool r.success)]

/-- What a save stringifies. -/
structure Snapshot where
  startedAt : Json
  records : List Json

namespace Snapshot

def json (snapshot : Snapshot) : Json :=
  .obj [("startedAt", snapshot.startedAt), ("records", .arr snapshot.records)]

/-- `JSON.stringify(…, null, 2)` in UTF-8. -/
def bytes (snapshot : Snapshot) : List UInt8 :=
  Lib.utf8Encode (Adapter.print .indented 0 snapshot.json)

end Snapshot

def isNull : Json → Bool
  | .null => true
  | _ => false

/-- What `load` parses, `none` if it throws. -/
def parsedFile (F : NumberFormat) (file : Option (List UInt8)) : Option Json :=
  file.bind fun bytes => Adapter.parseJson F.number (Lib.utf8Decode bytes)

/-- The records of a file. Those that are no array, or hold a `null`, make `recountTotals` throw. -/
def loadedRecords (F : NumberFormat) (file : Option (List UInt8)) : List Json :=
  match (parsedFile F file).bind (·.get "records") with
  | some (.arr records) => if records.any isNull then [] else records
  | _ => []

/-- The file after a write at an offset. -/
def writeAt (file : List UInt8) (offset : Nat) (data : List UInt8) : List UInt8 :=
  file.take offset ++ List.replicate (offset - file.length) 0 ++ data ++
    file.drop (offset + data.length)

/-! ## The process -/

/-- Where a call of `save` is; `save` numbers what it has stringified. -/
inductive SaveCall where
  /-- It awaits `fs.mkdir`. -/
  | mkdir
  | opening (save : Nat) (text : List UInt8)
  | writing (save : Nat) (text : List UInt8) (written : Nat)
  | settled

/-- What a load yielded, after which save had completed last. -/
structure LoadResult where
  completed : Nat
  records : List Json

structure SavingProcess where
  file : Option (List UInt8)
  startedAt : Json
  records : List Json
  saveDebounce : Bool
  calls : List SaveCall
  /-- History variable: the records that the saves have stringified, in their order, after those
  that were saved before. -/
  saved : List (List Json)
  /-- History variable: the save that has completed last. -/
  completed : Nat
  /-- History variable: what the loads have yielded. -/
  loads : List LoadResult

inductive SavingEvent where
  | record (r : RequestRecord)
  | clear (now : Nat)
  /-- The timer of `debouncedSave`. -/
  | timer
  /-- `fs.mkdir` settles. -/
  | made (i : Nat) (ok : Bool)
  /-- `fs.writeFile` opens the file. -/
  | opened (i : Nat) (ok : Bool)
  | wrote (i : Nat) (length : Nat)
  /-- `fs.writeFile` settles. -/
  | closed (i : Nat) (ok : Bool)
  /-- The process stops, and the next one starts. -/
  | stop (now : Nat)
  /-- `fs.readFile` of a load settles. -/
  | read (now : Nat)

namespace SavingProcess

variable (F : NumberFormat) (s : SavingProcess)

def snapshot : Snapshot := ⟨s.startedAt, s.records⟩

def madeOn (i : Nat) (ok : Bool) : SavingProcess :=
  match s.calls[i]?, ok with
  | some .mkdir, true => { s with
      calls := s.calls.set i (.opening s.saved.length s.snapshot.bytes)
      saved := s.saved ++ [s.records] }
  | some .mkdir, false => { s with calls := s.calls.set i .settled }
  | _, _ => s

def openedOn (i : Nat) (ok : Bool) : SavingProcess :=
  match s.calls[i]?, ok with
  | some (.opening save text), true => { s with
      file := some []
      calls := s.calls.set i (.writing save text 0) }
  | some (.opening _ _), false => { s with calls := s.calls.set i .settled }
  | _, _ => s

def wroteOn (i : Nat) (length : Nat) : SavingProcess :=
  match s.calls[i]? with
  | some (.writing save text written) =>
    if written + length ≤ text.length then { s with
      file := s.file.map fun bytes => writeAt bytes written ((text.drop written).take length)
      calls := s.calls.set i (.writing save text (written + length)) }
    else s
  | _ => s

def closedOn (i : Nat) (ok : Bool) : SavingProcess :=
  match s.calls[i]?, ok with
  | some (.writing save text written), true =>
    if written = text.length then { s with
      calls := s.calls.set i .settled
      completed := save }
    else s
  | some (.writing _ _ _), false => { s with calls := s.calls.set i .settled }
  | _, _ => s

/-- A load sets `startedAt` unless it throws before. -/
def readOn (now : Nat) : SavingProcess :=
  let records := loadedRecords F s.file
  let loads := s.loads ++ [⟨s.completed, records⟩]
  match parsedFile F s.file with
  | none | some .null => { s with records, loads }
  | some parsed =>
    let startedAt := (parsed.get "startedAt").filter fun startedAt => Json.truthy (some startedAt)
    { s with records, loads, startedAt := startedAt.getD (F.nat now) }

def step : SavingEvent → SavingProcess
  | .record r => { s with records := s.records ++ [r.json F], saveDebounce := true }
  | .clear now => { s with
      records := []
      startedAt := F.nat now
      calls := s.calls ++ [.mkdir] }
  | .timer =>
    if s.saveDebounce then { s with saveDebounce := false, calls := s.calls ++ [.mkdir] } else s
  | .made i ok => s.madeOn i ok
  | .opened i ok => s.openedOn i ok
  | .wrote i length => s.wroteOn i length
  | .closed i ok => s.closedOn i ok
  | .stop now => { s with
      records := []
      startedAt := F.nat now
      saveDebounce := false
      calls := [] }
  | .read now => s.readOn F now

end SavingProcess

/-- Values that `JSON.parse` can return, and no `null` among the records. -/
structure Snapshot.Ok (F : NumberFormat) (snapshot : Snapshot) : Prop where
  startedAt : Adapter.Canonical F.number snapshot.startedAt
  records : Adapter.CanonicalItems F.number snapshot.records
  notNull : snapshot.records.any isNull = false

/-- A history that was saved before the first process starts. -/
structure SavedSnapshot (F : NumberFormat) extends Snapshot where
  ok : toSnapshot.Ok F

/-- The first process at the start of its load. -/
def SavingProcess.init (F : NumberFormat) (initial : Option (SavedSnapshot F)) (now : Nat) :
    SavingProcess where
  file := initial.map (·.bytes)
  startedAt := F.nat now
  records := []
  saveDebounce := false
  calls := []
  saved := [(initial.map (·.records)).getD []]
  completed := 0
  loads := []

def saving (F : NumberFormat) (initial : Option (SavedSnapshot F)) (now : Nat) :
    Lib.Machine SavingProcess SavingEvent where
  init := .init F initial now
  step := .step F

/-! ## What a save leaves -/

variable {F : NumberFormat}

theorem parsedFile_bytes {snapshot : Snapshot} (h : snapshot.Ok F) :
    parsedFile F (some snapshot.bytes) = some snapshot.json := by
  have hcanonical : Adapter.Canonical F.number snapshot.json :=
    ⟨by simp, h.startedAt, h.records, trivial⟩
  have hparse := Adapter.parseJson_print .indented hcanonical (List.forall_mem_nil _)
  rw [List.append_nil] at hparse
  rw [parsedFile, Option.bind_some, Snapshot.bytes, Lib.utf8Decode_encode, hparse]

theorem loadedRecords_bytes {snapshot : Snapshot} (h : snapshot.Ok F) :
    loadedRecords F (some snapshot.bytes) = snapshot.records := by
  unfold loadedRecords
  rw [parsedFile_bytes h, Option.bind_some]
  show (if snapshot.records.any isNull = true then [] else snapshot.records) = snapshot.records
  rw [h.notNull, if_neg Bool.false_ne_true]

theorem writeAt_take {text : List UInt8} {written length : Nat}
    (h : written + length ≤ text.length) :
    writeAt (text.take written) written ((text.drop written).take length) =
      text.take (written + length) := by
  have hwritten : (text.take written).length = written := List.length_take_of_le (by omega)
  have hrest : (text.take written).drop (written + ((text.drop written).take length).length) = [] :=
    List.drop_eq_nil_of_le (by omega)
  rw [writeAt, hrest, hwritten, Nat.sub_self, List.replicate_zero, List.append_nil, List.append_nil,
    List.take_take, Nat.min_self, List.take_add]

/-! ## Runs -/

namespace SaveCall

def isWriting : SaveCall → Bool
  | .writing _ _ _ => true
  | _ => false

/-- The file is truncated, and not all of the text is written. -/
def partway : SaveCall → Bool
  | .writing _ text written => written < text.length
  | _ => false

/-- What it is about to write is no older than the given save. -/
def isNewer (completed : Nat) : SaveCall → Bool
  | .opening save _ => completed ≤ save
  | _ => true

end SaveCall

namespace SavingProcess

/-- No save opens the file while another one writes it or with older records than the last one that
completed, none fails partway, and the process neither stops nor loads while one is partway. -/
def uninterrupted (s : SavingProcess) : SavingEvent → Bool
  | .opened i true =>
    s.calls.all (fun call => !call.isWriting) && s.calls[i]?.all (·.isNewer s.completed)
  | .closed i false => s.calls[i]?.all fun call => !call.partway
  | .stop _ | .read _ => s.calls.all fun call => !call.partway
  | _ => true

/-- Every load yields the records of the save that completed last before it, or of a newer one. -/
def HistoryKept (s : SavingProcess) : Prop :=
  ∀ load ∈ s.loads, ∃ i, load.completed ≤ i ∧ s.saved[i]? = some load.records

/-- The file is what the save `i` has written. -/
def Holds (F : NumberFormat) (saved : List (List Json)) (file : Option (List UInt8)) (i : Nat) :
    Prop :=
  (file = none ∧ saved[i]? = some []) ∨ ∃ snapshot : Snapshot, snapshot.Ok F ∧
    file = some snapshot.bytes ∧ saved[i]? = some snapshot.records

/-- What a call is about to write, or writes, is the text of its save. -/
def Fits (F : NumberFormat) (saved : List (List Json)) : SaveCall → Prop
  | .opening save text | .writing save text _ => ∃ snapshot : Snapshot, snapshot.Ok F ∧
      text = snapshot.bytes ∧ saved[save]? = some snapshot.records
  | _ => True

/-- The call `i` is the only one that writes. -/
structure Writes (s : SavingProcess) (i save : Nat) (text : List UInt8) (written : Nat) : Prop where
  call : s.calls[i]? = some (.writing save text written)
  newer : s.completed ≤ save
  bound : written ≤ text.length
  file : s.file = some (text.take written)
  only : ∀ j call, s.calls[j]? = some call → SaveCall.isWriting call = true → j = i

structure Inv (F : NumberFormat) (s : SavingProcess) : Prop where
  memory : s.snapshot.Ok F
  fits : ∀ call ∈ s.calls, Fits F s.saved call
  file : (∃ i save text written, s.Writes i save text written) ∨
    (∀ call ∈ s.calls, SaveCall.isWriting call = false) ∧
      ∃ i, s.completed ≤ i ∧ Holds F s.saved s.file i
  kept : s.HistoryKept

variable {s s' : SavingProcess}

theorem getElem?_of_prefix {α : Type*} {l l' : List α} (h : l <+: l') {i : Nat} {a : α}
    (ha : l[i]? = some a) : l'[i]? = some a := by
  obtain ⟨more, rfl⟩ := h
  obtain ⟨hi, -⟩ := List.getElem?_eq_some_iff.mp ha
  rwa [List.getElem?_append_left hi]

theorem Fits.mono {saved saved' : List (List Json)} (hsaved : saved <+: saved') {call : SaveCall}
    (h : Fits F saved call) : Fits F saved' call := by
  cases call with
  | mkdir | settled => trivial
  | opening save text | writing save text written =>
    obtain ⟨snapshot, hok, htext, hrecords⟩ := h
    exact ⟨snapshot, hok, htext, getElem?_of_prefix hsaved hrecords⟩

theorem Holds.mono {saved saved' : List (List Json)} (hsaved : saved <+: saved')
    {file : Option (List UInt8)} {i : Nat} (h : Holds F saved file i) : Holds F saved' file i := by
  rcases h with ⟨hfile, hrecords⟩ | ⟨snapshot, hok, hfile, hrecords⟩
  · exact .inl ⟨hfile, getElem?_of_prefix hsaved hrecords⟩
  · exact .inr ⟨snapshot, hok, hfile, getElem?_of_prefix hsaved hrecords⟩

theorem Holds.loaded {saved : List (List Json)} {file : Option (List UInt8)} {i : Nat}
    (h : Holds F saved file i) : saved[i]? = some (loadedRecords F file) := by
  rcases h with ⟨rfl, hsaved⟩ | ⟨snapshot, hok, rfl, hsaved⟩
  · exact hsaved
  · rw [hsaved, loadedRecords_bytes hok]

theorem Holds.canonical {saved : List (List Json)} {file : Option (List UInt8)} {i : Nat}
    (h : Holds F saved file i) : Adapter.CanonicalItems F.number (loadedRecords F file) ∧
      (loadedRecords F file).any isNull = false := by
  rcases h with ⟨rfl, -⟩ | ⟨snapshot, hok, rfl, -⟩
  · exact ⟨trivial, rfl⟩
  · rw [loadedRecords_bytes hok]
    exact ⟨hok.records, hok.notNull⟩

/-- A save that has written all its text has left it in the file. -/
theorem Inv.holds_of_written (H : s.Inv F) {i save written : Nat} {text : List UInt8}
    (W : s.Writes i save text written) (hwritten : text.length ≤ written) :
    Holds F s.saved s.file save := by
  obtain ⟨snapshot, hok, htext, hsaved⟩ := H.fits _ (List.mem_of_getElem? W.call)
  refine .inr ⟨snapshot, hok, ?_, hsaved⟩
  rw [W.file, List.take_of_length_le hwritten, htext]

/-- Where no save is partway, the file is whole. -/
theorem Inv.holds (H : s.Inv F) (h : ∀ call ∈ s.calls, SaveCall.partway call = false) :
    ∃ i, s.completed ≤ i ∧ Holds F s.saved s.file i := by
  rcases H.file with ⟨i, save, text, written, W⟩ | ⟨-, hholds⟩
  · have hwritten : text.length ≤ written :=
      Nat.not_lt.mp (of_decide_eq_false (h _ (List.mem_of_getElem? W.call)))
    exact ⟨save, W.newer, H.holds_of_written W hwritten⟩
  · exact hholds

theorem HistoryKept.mono (H : s.HistoryKept) (hsaved : s.saved <+: s'.saved)
    (hloads : s'.loads = s.loads) : s'.HistoryKept := by
  intro load hload
  obtain ⟨i, hi, hrecords⟩ := H load (hloads ▸ hload)
  exact ⟨i, hi, getElem?_of_prefix hsaved hrecords⟩

/-- A step that leaves alone the file and the calls that write. -/
theorem Inv.same (H : s.Inv F) (hfile : s'.file = s.file) (hcompleted : s'.completed = s.completed)
    (hsaved : s.saved <+: s'.saved) (hkept : s'.HistoryKept) (hmemory : s'.snapshot.Ok F)
    (hfits : ∀ call ∈ s'.calls, Fits F s'.saved call)
    (hcalls : ∀ (i : Nat) (call : SaveCall), call.isWriting = true →
      (s'.calls[i]? = some call ↔ s.calls[i]? = some call)) : s'.Inv F where
  memory := hmemory
  fits := hfits
  file := by
    rcases H.file with ⟨i, save, text, written, W⟩ | ⟨hidle, i, hi, hholds⟩
    · refine .inl ⟨i, save, text, written, (hcalls i _ rfl).mpr W.call, hcompleted ▸ W.newer, W.bound,
        hfile ▸ W.file, fun j call hj hcall => W.only j call ((hcalls j call hcall).mp hj) hcall⟩
    · refine .inr ⟨fun call hcall => ?_, i, hcompleted ▸ hi, hfile ▸ hholds.mono hsaved⟩
      rw [Bool.eq_false_iff]
      intro hwriting
      obtain ⟨j, hj⟩ := List.getElem?_of_mem hcall
      have hmem := List.mem_of_getElem? ((hcalls j call hwriting).mp hj)
      exact Bool.false_ne_true ((hidle call hmem).symm.trans hwriting)
  kept := hkept

/-! ## Steps -/

theorem writing_append {calls : List SaveCall} (i : Nat) (call : SaveCall)
    (hcall : call.isWriting = true) : (calls ++ [.mkdir])[i]? = some call ↔ calls[i]? = some call := by
  constructor
  · intro h
    rw [List.getElem?_append] at h
    split at h
    next => exact h
    next =>
      rw [List.mem_singleton.mp (List.mem_of_getElem? h)] at hcall
      cases hcall
  · exact getElem?_of_prefix (List.prefix_append _ _)

theorem writing_set {calls : List SaveCall} {i : Nat} {old new : SaveCall}
    (hold : calls[i]? = some old) (hold' : old.isWriting = false) (hnew : new.isWriting = false)
    (j : Nat) (call : SaveCall) (hcall : call.isWriting = true) :
    (calls.set i new)[j]? = some call ↔ calls[j]? = some call := by
  rw [List.getElem?_set]
  split
  next hij =>
    subst hij
    have hne : ∀ other : SaveCall, other.isWriting = false → some other ≠ some call := by
      intro other hother h
      rw [Option.some.inj h] at hother
      exact Bool.false_ne_true (hother.symm.trans hcall)
    rw [if_pos (List.getElem?_eq_some_iff.mp hold).1, hold]
    exact iff_of_false (hne new hnew) (hne old hold')
  next => rfl

theorem fits_set {saved saved' : List (List Json)} {calls : List SaveCall} {i : Nat}
    {new : SaveCall} (hsaved : saved <+: saved') (h : ∀ call ∈ calls, Fits F saved call)
    (hnew : Fits F saved' new) : ∀ call ∈ calls.set i new, Fits F saved' call := by
  intro call hcall
  rcases List.mem_or_eq_of_mem_set hcall with hcall | rfl
  · exact (h call hcall).mono hsaved
  · exact hnew

theorem fits_append {saved : List (List Json)} {calls : List SaveCall}
    (h : ∀ call ∈ calls, Fits F saved call) : ∀ call ∈ calls ++ [.mkdir], Fits F saved call :=
  List.forall_mem_append.mpr ⟨h, List.forall_mem_singleton.mpr trivial⟩

theorem canonical_nat (F : NumberFormat) (n : Nat) : Adapter.Canonical F.number (F.nat n) :=
  ⟨F.isNumber_print n, F.number_print n⟩

theorem canonical_record (F : NumberFormat) (r : RequestRecord) :
    Adapter.Canonical F.number (r.json F) :=
  ⟨by simp, canonical_nat F _, trivial, canonical_nat F _, canonical_nat F _, canonical_nat F _,
    canonical_nat F _, canonical_nat F _, ⟨F.isNumber_print _, F.number_print _⟩, trivial, trivial,
    trivial⟩

theorem canonicalItems_append {items items' : List Json} (h : Adapter.CanonicalItems F.number items)
    (h' : Adapter.CanonicalItems F.number items') :
    Adapter.CanonicalItems F.number (items ++ items') := by
  induction items with
  | nil => exact h'
  | cons v items ih => exact ⟨h.1, ih h.2⟩

theorem Inv.record (H : s.Inv F) (r : RequestRecord) : (s.step F (.record r)).Inv F := by
  have hmemory : (s.step F (.record r)).snapshot.Ok F := by
    refine ⟨H.memory.startedAt, canonicalItems_append H.memory.records
      ⟨canonical_record F r, trivial⟩, ?_⟩
    show (s.records ++ [r.json F]).any isNull = false
    rw [List.any_append, show s.records.any isNull = false from H.memory.notNull]
    rfl
  exact H.same rfl rfl List.prefix_rfl (H.kept.mono List.prefix_rfl rfl) hmemory H.fits fun _ _ _ => Iff.rfl

theorem Inv.clear (H : s.Inv F) (now : Nat) : (s.step F (.clear now)).Inv F :=
  H.same rfl rfl List.prefix_rfl (H.kept.mono List.prefix_rfl rfl) ⟨canonical_nat F now, trivial, rfl⟩ (fits_append H.fits)
    writing_append

theorem Inv.timer (H : s.Inv F) : (s.step F .timer).Inv F := by
  rw [step]
  split
  next => exact H.same rfl rfl List.prefix_rfl (H.kept.mono List.prefix_rfl rfl) H.memory (fits_append H.fits) writing_append
  next => exact H

theorem Inv.made (H : s.Inv F) (i : Nat) (ok : Bool) : (s.madeOn i ok).Inv F := by
  unfold madeOn
  split
  next hcall =>
    have hsaved : s.saved <+: s.saved ++ [s.records] := List.prefix_append _ _
    refine H.same rfl rfl hsaved (H.kept.mono hsaved rfl) H.memory (fits_set hsaved H.fits ?_) (writing_set hcall rfl rfl)
    exact ⟨s.snapshot, H.memory, rfl, List.getElem?_concat_length⟩
  next hcall =>
    exact H.same rfl rfl List.prefix_rfl (H.kept.mono List.prefix_rfl rfl) H.memory (fits_set List.prefix_rfl H.fits trivial)
      (writing_set hcall rfl rfl)
  next => exact H

theorem Inv.writes (H : s.Inv F) {i save written : Nat} {text : List UInt8}
    (hcall : s.calls[i]? = some (.writing save text written)) : s.Writes i save text written := by
  rcases H.file with ⟨j, save', text', written', W⟩ | ⟨hidle, -⟩
  · obtain rfl := W.only i _ hcall rfl
    have hsame := W.call.symm.trans hcall
    cases hsame
    exact W
  · exact (Bool.false_ne_true (hidle _ (List.mem_of_getElem? hcall)).symm).elim

/-- After its only writer has settled, no call writes. -/
theorem Writes.idle_set {i save written : Nat} {text : List UInt8} (W : s.Writes i save text written) :
    ∀ call ∈ s.calls.set i .settled, SaveCall.isWriting call = false := by
  intro call hcall
  rw [Bool.eq_false_iff]
  intro hwriting
  obtain ⟨j, hj⟩ := List.getElem?_of_mem hcall
  rw [List.getElem?_set] at hj
  split at hj
  next hij =>
    rw [if_pos (hij ▸ (List.getElem?_eq_some_iff.mp W.call).1)] at hj
    cases hj
    cases hwriting
  next hij => exact hij (W.only j call hj hwriting).symm

theorem Inv.opened (H : s.Inv F) {i : Nat} {ok : Bool} (h : s.uninterrupted (.opened i ok) = true) :
    (s.openedOn i ok).Inv F := by
  unfold openedOn
  split
  next save text hcall =>
    obtain ⟨hidle, hnewer⟩ := (Bool.and_eq_true _ _).to_iff.mp h
    rw [hcall] at hnewer
    have hi := (List.getElem?_eq_some_iff.mp hcall).1
    have hfits := H.fits _ (List.mem_of_getElem? hcall)
    refine ⟨H.memory, fits_set List.prefix_rfl H.fits hfits,
      .inl ⟨i, save, text, 0, List.getElem?_set_self hi, of_decide_eq_true hnewer, Nat.zero_le _, rfl,
        fun j call hj hwriting => ?_⟩, H.kept⟩
    rw [List.getElem?_set] at hj
    split at hj
    next hij => exact hij.symm
    next =>
      have hquiet := List.all_eq_true.mp hidle call (List.mem_of_getElem? hj)
      rw [hwriting] at hquiet
      cases hquiet
  next hcall =>
    exact H.same rfl rfl List.prefix_rfl (H.kept.mono List.prefix_rfl rfl) H.memory
      (fits_set List.prefix_rfl H.fits trivial) (writing_set hcall rfl rfl)
  next => exact H

theorem Inv.wrote (H : s.Inv F) (i length : Nat) : (s.wroteOn i length).Inv F := by
  unfold wroteOn
  split
  next save text written hcall =>
    split
    next hbound =>
      have W := H.writes hcall
      have hi := (List.getElem?_eq_some_iff.mp hcall).1
      have hfits := H.fits _ (List.mem_of_getElem? hcall)
      refine ⟨H.memory, fits_set List.prefix_rfl H.fits hfits,
        .inl ⟨i, save, text, written + length, List.getElem?_set_self hi, W.newer, hbound, ?_,
          fun j call hj hwriting => ?_⟩, H.kept⟩
      · show s.file.map _ = _
        rw [W.file, Option.map_some, writeAt_take hbound]
      · rw [List.getElem?_set] at hj
        split at hj
        next hij => exact hij.symm
        next => exact W.only j call hj hwriting
    next => exact H
  next => exact H

theorem Inv.closed (H : s.Inv F) {i : Nat} {ok : Bool} (h : s.uninterrupted (.closed i ok) = true) :
    (s.closedOn i ok).Inv F := by
  unfold closedOn
  split
  next save text written hcall =>
    split
    next hwritten =>
      have W := H.writes hcall
      exact ⟨H.memory, fits_set List.prefix_rfl H.fits trivial,
        .inr ⟨W.idle_set, save, le_rfl, H.holds_of_written W hwritten.ge⟩, H.kept⟩
    next => exact H
  next save text written hcall =>
    have W := H.writes hcall
    have hpartway : SaveCall.partway (.writing save text written) = false := by
      simpa only [uninterrupted, hcall, Option.all_some, Bool.not_eq_true'] using h
    have hwritten : text.length ≤ written := Nat.not_lt.mp (of_decide_eq_false hpartway)
    exact ⟨H.memory, fits_set List.prefix_rfl H.fits trivial,
      .inr ⟨W.idle_set, save, W.newer, H.holds_of_written W hwritten⟩, H.kept⟩
  next => exact H

theorem whole_of_all {calls : List SaveCall} (h : (calls.all fun call => !call.partway) = true) :
    ∀ call ∈ calls, SaveCall.partway call = false := by
  simpa only [List.all_eq_true, Bool.not_eq_true'] using h

theorem Inv.stop (H : s.Inv F) {now : Nat} (h : s.uninterrupted (.stop now) = true) :
    (s.step F (.stop now)).Inv F where
  memory := ⟨canonical_nat F now, trivial, rfl⟩
  fits := List.forall_mem_nil _
  file := .inr ⟨List.forall_mem_nil _, H.holds (whole_of_all h)⟩
  kept := H.kept

theorem Inv.read (H : s.Inv F) {now : Nat} (h : s.uninterrupted (.read now) = true) :
    (s.readOn F now).Inv F := by
  obtain ⟨i, hi, hholds⟩ := H.holds (whole_of_all h)
  have hkept : ∀ load ∈ s.loads ++ [⟨s.completed, loadedRecords F s.file⟩],
      ∃ i, load.completed ≤ i ∧ s.saved[i]? = some load.records :=
    List.forall_mem_append.mpr ⟨H.kept, List.forall_mem_singleton.mpr ⟨i, hi, hholds.loaded⟩⟩
  obtain ⟨hcanonical, hnull⟩ := hholds.canonical
  have hmemory : ∀ startedAt, Adapter.Canonical F.number startedAt →
      Inv F { s with
        startedAt
        records := loadedRecords F s.file
        loads := s.loads ++ [⟨s.completed, loadedRecords F s.file⟩] } := fun startedAt hstart =>
    H.same rfl rfl List.prefix_rfl hkept ⟨hstart, hcanonical, hnull⟩ H.fits fun _ _ _ => Iff.rfl
  unfold readOn
  rcases hholds with ⟨hfile, -⟩ | ⟨snapshot, hok, hfile, -⟩
  · have hparsed : parsedFile F s.file = none := hfile ▸ rfl
    simp only [hparsed]
    exact hmemory _ H.memory.startedAt
  · have hparsed : parsedFile F s.file = some snapshot.json := hfile ▸ parsedFile_bytes hok
    simp only [hparsed]
    refine hmemory _ ?_
    show Adapter.Canonical F.number (((some snapshot.startedAt).filter _).getD _)
    rw [Option.filter_some]
    split
    next => exact hok.startedAt
    next => exact canonical_nat F now

theorem Inv.step (H : s.Inv F) {event : SavingEvent} (h : s.uninterrupted event = true) :
    (s.step F event).Inv F := by
  cases event with
  | record r => exact H.record r
  | clear now => exact H.clear now
  | timer => exact H.timer
  | made i ok => exact H.made i ok
  | opened i ok => exact H.opened h
  | wrote i length => exact H.wrote i length
  | closed i ok => exact H.closed h
  | stop now => exact H.stop h
  | read now => exact H.read h

theorem inv_init (initial : Option (SavedSnapshot F)) (now : Nat) : (init F initial now).Inv F where
  memory := ⟨canonical_nat F now, trivial, rfl⟩
  fits := List.forall_mem_nil _
  file := by
    refine .inr ⟨List.forall_mem_nil _, 0, le_rfl, ?_⟩
    cases initial with
    | none => exact .inl ⟨rfl, rfl⟩
    | some saved => exact .inr ⟨saved.toSnapshot, saved.ok, rfl, rfl⟩
  kept := List.forall_mem_nil _

end SavingProcess

/-- In every run in which no save is interrupted, every load yields the records of the save that
completed last before it, or of a newer one. -/
theorem historySurvives (F : NumberFormat) (initial : Option (SavedSnapshot F)) (now : Nat)
    (events : List SavingEvent)
    (h : (saving F initial now).Along (fun s event => s.uninterrupted event = true)
      (saving F initial now).init events) :
    ((saving F initial now).run events).HistoryKept := by
  have hinv : SavingProcess.Inv F ((saving F initial now).run events) :=
    Lib.Machine.runFrom_keeps_along (M := saving F initial now) (I := SavingProcess.Inv F)
      (fun _ _ hevent H => H.step hevent) (SavingProcess.inv_init initial now) h
  exact hinv.kept

/-! ## An interrupted save -/

/-- The texts of three numbers. -/
def plainFormat : NumberFormat where
  number := String.ofList
  print q := if q = 0 then "0" else if q = 1 then "1" else "5"
  isNumber_print q := by
    split
    next => rfl
    split <;> rfl
  number_print q := by
    split
    next => rfl
    split <;> rfl

def plainRecord : RequestRecord := ⟨5, "sonnet", 1, 1, 0, 0, 5, 0, false, true⟩

/-- The first load, a request, and the save of its record. -/
def savedRun : List SavingEvent :=
  [.read 1, .record plainRecord, .timer, .made 0 true, .opened 0 true,
    .wrote 0 (Snapshot.bytes ⟨plainFormat.nat 1, [plainRecord.json plainFormat]⟩).length,
    .closed 0 true]

/-- A process that stops after its save. -/
theorem historySurvives_saved :
    ((saving plainFormat none 1).run (savedRun ++ [.stop 5, .read 5])).HistoryKept :=
  historySurvives plainFormat none 1 _ (by decide +kernel)

/-- A process that stops when its second save has truncated the file: the next one finds nothing,
though a save with a record had completed. -/
theorem history_lost : ¬((saving plainFormat none 1).run (savedRun ++
    [.record plainRecord, .timer, .made 1 true, .opened 1 true, .stop 5, .read 5])).HistoryKept := by
  set s := (saving plainFormat none 1).run (savedRun ++
    [.record plainRecord, .timer, .made 1 true, .opened 1 true, .stop 5, .read 5]) with hs
  have hloads : (s.loads.map fun load => (load.completed, load.records.length))[1]? = some (1, 0) := by
    decide +kernel
  have hsaved : s.saved.map List.length = [0, 1, 2] := by decide +kernel
  intro h
  rw [List.getElem?_map, Option.map_eq_some_iff] at hloads
  obtain ⟨load, hload, hvalue⟩ := hloads
  obtain ⟨i, hi, hrecords⟩ := h load (List.mem_of_getElem? hload)
  have hlength : (s.saved.map List.length)[i]? = some load.records.length := by
    rw [List.getElem?_map, hrecords, Option.map_some]
  obtain ⟨hcompleted, hnone⟩ := Prod.mk.inj hvalue
  rw [hsaved, hnone] at hlength
  rcases i with _ | _ | _ | i
  · omega
  · cases hlength
  · cases hlength
  · cases hlength

end CliProxy.Usage
