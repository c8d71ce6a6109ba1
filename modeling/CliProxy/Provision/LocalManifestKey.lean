import CliProxy.Lib.Machine
import CliProxy.Lib.Text
import CliProxy.Provision.RegisteredManifest

/-! # The local manifest key

`loadOrCreateLocalManifestKey` of `src/provision/state.ts`, called by any number of processes that
share one state directory. A process publishes a key by a hard link, which never replaces the key of
another process, and returns the key that the file holds. -/

namespace CliProxy.Provision.LocalKey

open Lib (trim isTrimmed utf8Encode utf8Decode Machine)
open Lib.Base64 (encodeUrl isUrlChar)

/-! ## The source -/

/-- `/^[A-Za-z0-9_-]{43}$/.test(text)` -/
def isManifestKey (text : List Char) : Bool := text.length = 43 && text.all isUrlChar

/-- `readFileSync(file, "utf8").trim()`, if it has the form of a key. -/
def readKey (file : Option (List UInt8)) : Option (List Char) :=
  (file.map fun bytes => trim (utf8Decode bytes)).filter isManifestKey

def keyFile (key : List Char) : List UInt8 := utf8Encode (key ++ ['\n'])

/-- What `randomBytes(32)` returned. -/
structure RandomKey where
  bytes : List UInt8
  length_bytes : bytes.length = 32

def RandomKey.text (random : RandomKey) : List Char := encodeUrl random.bytes

/-- Where a call stands. -/
inductive KeyCall where
  | idle
  /-- It has read no key. -/
  | missing
  /-- Its temporary file holds the key. -/
  | staged (key : List Char)
  /-- The link was made; the temporary file is to be removed. -/
  | published (key : List Char)
  /-- The link failed with `EEXIST`; the temporary file is to be removed. -/
  | lost (key : List Char)
  /-- It reads the file of the winner. -/
  | waiting (key : List Char)
  /-- That file holds no key. -/
  | replacing (key : List Char)
  /-- The replacement was renamed; what may be left of it is to be removed. -/
  | replaced (key : List Char)
  deriving DecidableEq

structure KeyState where
  file : Option (List UInt8)
  calls : Nat → KeyCall
  /-- History variable: what the calls have returned. -/
  returned : List (List Char)

inductive KeyEvent where
  /-- The first read; a file that is not readable is as good as missing. -/
  | read (p : Nat) (readable : Bool)
  | stage (p : Nat) (random : RandomKey)
  | link (p : Nat)
  | removeTemporary (p : Nat)
  | readWinner (p : Nat)
  | replace (p : Nat)
  | removeReplacement (p : Nat)
  /-- The call throws, or its process stops. -/
  | throws (p : Nat)

namespace KeyState

variable (s : KeyState)

def set (p : Nat) (call : KeyCall) : KeyState := { s with calls := Function.update s.calls p call }

def returns (p : Nat) (key : List Char) : KeyState :=
  { s.set p .idle with returned := s.returned ++ [key] }

def step : KeyEvent → KeyState
  | .read p readable =>
    match s.calls p with
    | .idle =>
      match if readable then readKey s.file else none with
      | some key => s.returns p key
      | none => s.set p .missing
    | _ => s
  | .stage p random =>
    match s.calls p with
    | .missing => s.set p (.staged random.text)
    | _ => s
  | .link p =>
    match s.calls p with
    | .staged key =>
      match s.file with
      | none => { s.set p (.published key) with file := some (keyFile key) }
      | some _ => s.set p (.lost key)
    | _ => s
  | .removeTemporary p =>
    match s.calls p with
    | .published key => s.returns p key
    | .lost key => s.set p (.waiting key)
    | _ => s
  | .readWinner p =>
    match s.calls p with
    | .waiting key =>
      match readKey s.file with
      | some winner => s.returns p winner
      | none => if s.file.isSome then s.set p (.replacing key) else s.set p .idle
    | _ => s
  | .replace p =>
    match s.calls p with
    | .replacing key => { s.set p (.replaced key) with file := some (keyFile key) }
    | _ => s
  | .removeReplacement p =>
    match s.calls p with
    | .replaced key => s.returns p key
    | _ => s
  | .throws p => s.set p .idle

end KeyState

/-- Any number of processes around a key file. -/
def keyMachine (file : Option (List UInt8)) : Machine KeyState KeyEvent where
  init := ⟨file, fun _ => .idle, []⟩
  step := KeyState.step

/-! ## What a key file holds -/

theorem isTrimmed_urlChar {c : Char} (h : isUrlChar c = true) : isTrimmed c = false := by
  have hcode := isUrlChar_bounds h
  simp only [isTrimmed, List.contains_eq_mem, Bool.or_eq_false_iff, decide_eq_false_iff_not,
    Bool.and_eq_false_iff, List.mem_cons, List.not_mem_nil, or_false]
  constructor <;> omega

theorem isManifestKey_random (random : RandomKey) : isManifestKey random.text = true := by
  rw [isManifestKey, Bool.and_eq_true, decide_eq_true_eq, List.all_eq_true]
  refine ⟨?_, Lib.Base64.isUrlChar_encodeUrl random.bytes⟩
  rw [RandomKey.text, Lib.Base64.length_encodeUrl, random.length_bytes]

theorem readKey_keyFile {key : List Char} (h : isManifestKey key = true) :
    readKey (some (keyFile key)) = some key := by
  have hchars : ∀ c ∈ key, isTrimmed c = false := by
    rw [isManifestKey, Bool.and_eq_true, List.all_eq_true] at h
    exact fun c hc => isTrimmed_urlChar (h.2 c hc)
  rw [readKey, keyFile, Option.map_some, Lib.utf8Decode_encode, Lib.trim_append_newline hchars]
  exact Option.filter_some_pos h

/-! ## All processes return the key of the file -/

/-- What is known of a call while the file holds a key or is missing. -/
def CallOk (file : Option (List UInt8)) : KeyCall → Prop
  | .idle | .missing => True
  | .staged key => isManifestKey key = true
  | .published key => readKey file = some key
  | .lost _ | .waiting _ => file.isSome = true
  | .replacing _ | .replaced _ => False

/-- While there is no file, no call knows of one. -/
theorem CallOk.of_missing {call : KeyCall} {bytes : List UInt8} (h : CallOk none call) :
    CallOk (some bytes) call := by
  cases call with
  | idle | missing => trivial
  | staged key => exact h
  | published key => cases h
  | lost key | waiting key => rfl
  | replacing key | replaced key => exact h

structure Agreed (s : KeyState) : Prop where
  file : s.file.isSome = true → (readKey s.file).isSome = true
  calls : ∀ p, CallOk s.file (s.calls p)
  returned : ∀ key ∈ s.returned, readKey s.file = some key

variable {s : KeyState}

theorem Agreed.set (H : Agreed s) (p : Nat) {call : KeyCall} (hcall : CallOk s.file call) :
    Agreed (s.set p call) where
  file := H.file
  calls q := by
    dsimp only [KeyState.set]
    by_cases hq : q = p
    · rw [hq, Function.update_self]
      exact hcall
    · rw [Function.update_of_ne hq]
      exact H.calls q
  returned := H.returned

theorem Agreed.returns (H : Agreed s) (p : Nat) {key : List Char} (hkey : readKey s.file = some key) :
    Agreed (s.returns p key) where
  file := H.file
  calls := (H.set p (show CallOk s.file .idle from trivial)).calls
  returned := List.forall_mem_append.mpr ⟨H.returned, List.forall_mem_singleton.mpr hkey⟩

/-- The first link makes the file, and no key was returned before. -/
theorem Agreed.publish (H : Agreed s) (p : Nat) {key : List Char} (hkey : isManifestKey key = true)
    (hfile : s.file = none) :
    Agreed { s.set p (.published key) with file := some (keyFile key) } where
  file _ := by rw [readKey_keyFile hkey]; rfl
  calls q := by
    dsimp only [KeyState.set]
    by_cases hq : q = p
    · rw [hq, Function.update_self]
      exact readKey_keyFile hkey
    · rw [Function.update_of_ne hq]
      exact CallOk.of_missing (hfile ▸ H.calls q)
  returned key hmem := by
    have := H.returned key hmem
    rw [hfile] at this
    cases this

theorem Agreed.step (H : Agreed s) (e : KeyEvent) : Agreed (s.step e) := by
  cases e with
  | read p readable =>
    rw [KeyState.step]
    split
    · split
      next key hkey =>
        split at hkey
        · exact H.returns p hkey
        · cases hkey
      next => exact H.set p trivial
    · exact H
  | stage p random =>
    rw [KeyState.step]
    split
    · exact H.set p (isManifestKey_random random)
    · exact H
  | link p =>
    have hcall := H.calls p
    rw [KeyState.step]
    split
    next key hstaged =>
      rw [hstaged] at hcall
      split
      next hfile => exact H.publish p hcall hfile
      next bytes hfile => exact H.set p (by rw [hfile]; rfl)
    next => exact H
  | removeTemporary p =>
    have hcall := H.calls p
    rw [KeyState.step]
    split
    next key hpublished =>
      rw [hpublished] at hcall
      exact H.returns p hcall
    next key hlost =>
      rw [hlost] at hcall
      exact H.set p hcall
    next => exact H
  | readWinner p =>
    have hcall := H.calls p
    rw [KeyState.step]
    split
    next key hwaiting =>
      rw [hwaiting] at hcall
      split
      next winner hwinner => exact H.returns p hwinner
      next hnone =>
        have := H.file hcall
        rw [hnone] at this
        cases this
    next => exact H
  | replace p =>
    have hcall := H.calls p
    rw [KeyState.step]
    split
    next key hreplacing =>
      rw [hreplacing] at hcall
      exact hcall.elim
    next => exact H
  | removeReplacement p =>
    have hcall := H.calls p
    rw [KeyState.step]
    split
    next key hreplaced =>
      rw [hreplaced] at hcall
      exact hcall.elim
    next => exact H
  | throws p => exact H.set p trivial

/-- Whatever the order of the processes' steps, and whichever of them stop or throw, every key that
a call returns is the one that the file holds. -/
theorem localKey_agreed (file : Option (List UInt8))
    (hfile : file.isSome = true → (readKey file).isSome = true) {s : KeyState}
    (hs : (keyMachine file).Reachable s) : ∀ key ∈ s.returned, readKey s.file = some key := by
  have hinit : Agreed (keyMachine file).init := ⟨hfile, fun _ => trivial, List.forall_mem_nil _⟩
  exact (hs.keeps hinit fun _ e H => H.step e).returned

/-- Two processes that both find no key; the second one wins. -/
def race : List KeyEvent :=
  [.read 0 true, .read 1 true, .stage 0 ⟨List.replicate 32 0, rfl⟩,
    .stage 1 ⟨List.replicate 32 255, rfl⟩, .link 1, .link 0, .removeTemporary 0, .readWinner 0,
    .removeTemporary 1]

theorem localKey_agreed_race :
    let s := (keyMachine none).run race
    s.returned.length = 2 ∧ s.returned.all (fun key => readKey s.file = some key) = true := by
  refine ⟨by decide +kernel, List.all_eq_true.mpr fun key hkey => decide_eq_true ?_⟩
  exact localKey_agreed none (fun h => by cases h) ⟨race, rfl⟩ key hkey

/-! ## A call that runs alone -/

/-- The steps of one call; those that it does not need change nothing. -/
def wholeCall (p : Nat) (random : RandomKey) : List KeyEvent :=
  [.read p true, .stage p random, .link p, .removeTemporary p, .readWinner p, .replace p,
    .removeReplacement p]

theorem runFrom_returned (file : Option (List UInt8)) {p : Nat} (random : RandomKey)
    (hidle : s.calls p = .idle) :
    (keyMachine file).runFrom s ((wholeCall p random).drop 1) = s := by
  simp [wholeCall, keyMachine, Machine.runFrom, KeyState.step, hidle]

/-- Whatever the file holds and wherever the other calls stand, a call that runs to its end alone
returns the key of the file: the one it found, or else its own. -/
theorem localKey_heals (file : Option (List UInt8)) (s : KeyState) (p : Nat) (random : RandomKey)
    (hidle : s.calls p = .idle) :
    ∃ key, ((keyMachine file).runFrom s (wholeCall p random)).returned = s.returned ++ [key] ∧
      readKey ((keyMachine file).runFrom s (wholeCall p random)).file = some key ∧
      (readKey s.file).getD random.text = key := by
  cases hfound : readKey s.file with
  | some key =>
    have hread : s.step (.read p true) = s.returns p key := by
      simp [KeyState.step, hidle, hfound]
    have hrun : (keyMachine file).runFrom s (wholeCall p random) = s.returns p key := by
      rw [wholeCall, Machine.runFrom_cons]
      refine Eq.trans ?_ (runFrom_returned file random
        (show (s.returns p key).calls p = .idle from Function.update_self ..))
      exact congrArg (fun s' => (keyMachine file).runFrom s' _) hread
    rw [hrun]
    exact ⟨key, rfl, hfound, rfl⟩
  | none =>
    have hown := readKey_keyFile (isManifestKey_random random)
    cases hfile : s.file with
    | none =>
      rw [hfile] at hfound
      refine ⟨random.text, ?_, ?_, rfl⟩ <;>
        simp [wholeCall, keyMachine, Machine.runFrom, KeyState.step, KeyState.set,
          KeyState.returns, hidle, hfound, hfile, hown]
    | some bytes =>
      rw [hfile] at hfound
      refine ⟨random.text, ?_, ?_, rfl⟩ <;>
        simp [wholeCall, keyMachine, Machine.runFrom, KeyState.step, KeyState.set,
          KeyState.returns, hidle, hfound, hfile, hown]

theorem localKey_heals_corrupt : ∃ key,
    ((keyMachine none).runFrom ⟨some [0], fun _ => .idle, []⟩
        (wholeCall 0 ⟨List.replicate 32 0, rfl⟩)).returned = [] ++ [key] ∧
      readKey ((keyMachine none).runFrom ⟨some [0], fun _ => .idle, []⟩
        (wholeCall 0 ⟨List.replicate 32 0, rfl⟩)).file = some key ∧
      (readKey (some [0])).getD (RandomKey.text ⟨List.replicate 32 0, rfl⟩) = key :=
  localKey_heals none ⟨some [0], fun _ => .idle, []⟩ 0 ⟨List.replicate 32 0, rfl⟩ rfl

end CliProxy.Provision.LocalKey
