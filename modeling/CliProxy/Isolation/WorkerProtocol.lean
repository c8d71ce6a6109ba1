import Mathlib
import CliProxy.Lib.Hex
import CliProxy.Lib.Text

/-! # The generations of provisioning notifications

`decodeProvisioningGeneration` of `src/isolation/worker-protocol.ts` and
`provisioningGenerationTimestamp` of `src/isolation/worker-proxy.ts`. Generations are compared as
texts, and a later time gives a later text. -/

namespace CliProxy.Isolation

open Lib (isLowerHex hexValue hexText matchesEach)

/-- `[0-9a-f]` of an expression that ignores case. -/
def isHex (c : Char) : Bool := isLowerHex c.toLower

def UUID_V7 : List (Char → Bool) :=
  List.replicate 8 isHex ++ ((· == '-') :: (List.replicate 4 isHex ++ ((· == '-') :: (· == '7') ::
    (List.replicate 3 isHex ++ ((· == '-') :: (fun c => ['8', '9', 'a', 'b'].contains c.toLower) ::
      (List.replicate 3 isHex ++ ((· == '-') :: List.replicate 12 isHex)))))))

def decodeProvisioningGeneration (value : Option String) : Option String :=
  value.bind fun value =>
    if matchesEach UUID_V7 value.toList then some (String.ofList (value.toList.map Char.toLower))
    else none

/-- A generation as it is stored: decoding leaves it alone. -/
def IsGeneration (generation : String) : Prop :=
  decodeProvisioningGeneration (some generation) = some generation

instance (generation : String) : Decidable (IsGeneration generation) :=
  inferInstanceAs (Decidable (_ = _))

def provisioningGenerationTimestamp (generation : String) : Nat :=
  hexValue (generation.toList.take 8 ++ (generation.toList.drop 9).take 4)

def MAX_TIMESTAMP : Nat := 0xffffffffffff

/-! ## Decoding -/

theorem decode_some {value generation : String}
    (h : decodeProvisioningGeneration (some value) = some generation) :
    matchesEach UUID_V7 value.toList = true ∧ generation.toList = value.toList.map Char.toLower := by
  unfold decodeProvisioningGeneration at h
  rw [Option.bind_some] at h
  split at h
  next hmatch =>
    refine ⟨hmatch, ?_⟩
    rw [← Option.some.inj h, String.toList_ofList]
  next => exact absurd h.symm (Option.some_ne_none _)

theorem matchesEach_toLower {tests : List (Char → Bool)} {text : List Char}
    (htests : ∀ test ∈ tests, ∀ c : Char, test c = true → test c.toLower = true)
    (h : matchesEach tests text = true) : matchesEach tests (text.map Char.toLower) = true := by
  induction tests generalizing text with
  | nil => rw [List.isEmpty_iff.mp h]; rfl
  | cons test tests ih =>
    rw [List.forall_mem_cons] at htests
    obtain ⟨c, rest, rfl, hc, hrest⟩ := Lib.matchesEach_cons.mp h
    exact Lib.matchesEach_cons.mpr ⟨_, _, rfl, htests.1 c hc, ih htests.2 hrest⟩

theorem UUID_V7_toLower : ∀ test ∈ UUID_V7, ∀ c : Char, test c = true → test c.toLower = true := by
  have hhex : ∀ n, ∀ test ∈ List.replicate n isHex, ∀ c : Char, test c = true →
      test c.toLower = true := by
    intro n test htest c hc
    rw [List.eq_of_mem_replicate htest] at hc ⊢
    unfold isHex
    rwa [Char.toLower_toLower_eq_toLower]
  have hdash : ∀ c : Char, (c == '-') = true → (c.toLower == '-') = true := by
    intro c hc
    rw [beq_iff_eq.mp hc]
    rfl
  have hseven : ∀ c : Char, (c == '7') = true → (c.toLower == '7') = true := by
    intro c hc
    rw [beq_iff_eq.mp hc]
    rfl
  have hvariant : ∀ c : Char, ['8', '9', 'a', 'b'].contains c.toLower = true →
      ['8', '9', 'a', 'b'].contains c.toLower.toLower = true := by
    intro c hc
    rwa [Char.toLower_toLower_eq_toLower]
  intro test htest
  simp only [UUID_V7, List.mem_append, List.mem_cons] at htest
  obtain h | rfl | h | rfl | rfl | h | rfl | rfl | h | rfl | h := htest
  · exact hhex _ test h
  · exact hdash
  · exact hhex _ test h
  · exact hdash
  · exact hseven
  · exact hhex _ test h
  · exact hdash
  · exact hvariant
  · exact hhex _ test h
  · exact hdash
  · exact hhex _ test h

/-- What was decoded is stored as it is. -/
theorem isGeneration_of_decode {value : Option String} {generation : String}
    (h : decodeProvisioningGeneration value = some generation) : IsGeneration generation := by
  cases value with
  | none => exact absurd h.symm (Option.some_ne_none _)
  | some value =>
    obtain ⟨hmatch, htext⟩ := decode_some h
    have hlower : generation.toList.map Char.toLower = generation.toList := by
      rw [htext, List.map_map]
      exact List.map_congr_left fun c _ => Char.toLower_toLower_eq_toLower c
    unfold IsGeneration decodeProvisioningGeneration
    rw [Option.bind_some, hlower, String.ofList_toList, htext,
      if_pos (matchesEach_toLower UUID_V7_toLower hmatch)]

theorem eq_of_decode {value generation : String} (h : IsGeneration value)
    (hdecode : decodeProvisioningGeneration (some value) = some generation) : generation = value :=
  Option.some.inj (hdecode.symm.trans h)

/-! ## Times -/

/-- The time of a generation is what stands before its version. -/
theorem IsGeneration.split {generation : String} (h : IsGeneration generation) :
    ∃ a b rest, generation.toList = a ++ '-' :: (b ++ rest) ∧ a.length = 8 ∧ b.length = 4 ∧
      (∀ c ∈ a, isLowerHex c = true) ∧ ∀ c ∈ b, isLowerHex c = true := by
  obtain ⟨hmatch, hlower⟩ := decode_some h
  have hsame : ∀ c ∈ generation.toList, c.toLower = c := by
    have hmap : generation.toList.map Char.toLower = generation.toList.map id := by
      rw [← hlower, List.map_id]
    exact List.map_inj_left.mp hmap
  obtain ⟨a, t, htext, ha, ht⟩ := Lib.matchesEach_append.mp hmatch
  obtain ⟨c, t, rfl, hc, ht⟩ := Lib.matchesEach_cons.mp ht
  obtain ⟨b, rest, rfl, hb, -⟩ := Lib.matchesEach_append.mp ht
  obtain ⟨ha, hahex⟩ := Lib.matchesEach_replicate.mp ha
  obtain ⟨hb, hbhex⟩ := Lib.matchesEach_replicate.mp hb
  obtain rfl := beq_iff_eq.mp hc
  rw [htext] at hsame
  refine ⟨a, b, rest, htext, ha, hb, fun c hc => ?_, fun c hc => ?_⟩
  · rw [← hsame c (by simp [hc])]
    exact hahex c hc
  · rw [← hsame c (by simp [hc])]
    exact hbhex c hc

theorem timestamp_eq {generation : String} {a b rest : List Char}
    (htext : generation.toList = a ++ '-' :: (b ++ rest)) (ha : a.length = 8) (hb : b.length = 4) :
    provisioningGenerationTimestamp generation = hexValue (a ++ b) := by
  have hdrop : (a ++ '-' :: (b ++ rest)).drop 9 = b ++ rest := by
    rw [show 9 = a.length + 1 by rw [ha], List.drop_length_add_append]
    rfl
  unfold provisioningGenerationTimestamp
  rw [htext, hdrop, List.take_left' ha, List.take_left' hb]

/-- Later times have later generations. -/
theorem lt_of_timestamp_lt {g h : String} (hg : IsGeneration g) (hh : IsGeneration h)
    (hlt : provisioningGenerationTimestamp g < provisioningGenerationTimestamp h) : g < h := by
  obtain ⟨a, b, rest, hgtext, ha, hb, hahex, hbhex⟩ := hg.split
  obtain ⟨a', b', rest', hhtext, ha', hb', hahex', hbhex'⟩ := hh.split
  rw [timestamp_eq hgtext ha hb, timestamp_eq hhtext ha' hb', Lib.hexValue_append,
    Lib.hexValue_append, hb, hb'] at hlt
  have hlength := ha.trans ha'.symm
  have hlt' := Lib.hexValue_lt hbhex'
  rw [hb'] at hlt'
  rw [String.lt_iff_toList_lt, hgtext, hhtext]
  obtain h | h | h := Nat.lt_trichotomy (hexValue a) (hexValue a')
  · exact Lib.append_lt_of_hexValue_lt hlength hahex hahex' h _ _
  · obtain rfl := Lib.hexValue_inj hlength hahex hahex' h
    have hrest := Lib.append_lt_of_hexValue_lt (hb.trans hb'.symm) hbhex hbhex'
      (by omega) rest rest'
    exact List.append_left_lt (.cons hrest)
  · omega

/-! ## Identifiers -/

/-- What `v7` of the package `uuid` returns in one place: without options, and for a time. -/
structure Uuidv7 where
  fresh : String
  ofMsecs : Nat → String
  isGeneration_fresh : IsGeneration fresh
  isGeneration_ofMsecs : ∀ msecs ≤ MAX_TIMESTAMP, IsGeneration (ofMsecs msecs)
  timestamp_ofMsecs : ∀ msecs ≤ MAX_TIMESTAMP,
    provisioningGenerationTimestamp (ofMsecs msecs) = msecs

/-- An identifier without random bits. -/
def uuidText (msecs : Nat) : String :=
  String.ofList ((hexText 12 msecs).take 8 ++ '-' :: ((hexText 12 msecs).drop 8 ++
    "-7000-8000-000000000000".toList))

theorem toList_uuidText (msecs : Nat) : (uuidText msecs).toList = (hexText 12 msecs).take 8 ++
    '-' :: ((hexText 12 msecs).drop 8 ++ "-7000-8000-000000000000".toList) := String.toList_ofList

theorem toLower_of_isLowerHex {c : Char} (h : isLowerHex c = true) : c.toLower = c := by
  refine Char.toLower_eq_of_not_isUpper fun hupper => ?_
  simp only [isLowerHex, Bool.or_eq_true, Bool.and_eq_true, decide_eq_true_eq] at h
  have hle := Lib.isUpper_iff.mp hupper
  omega

theorem matchesEach_hexDigits {text : List Char} {n : Nat} (hlength : text.length = n)
    (h : ∀ c ∈ text, isLowerHex c = true) : matchesEach (List.replicate n isHex) text = true := by
  refine Lib.matchesEach_replicate.mpr ⟨hlength, fun c hc => ?_⟩
  rw [isHex, toLower_of_isLowerHex (h c hc)]
  exact h c hc

theorem isGeneration_uuidText (msecs : Nat) : IsGeneration (uuidText msecs) := by
  have hhex := Lib.isLowerHex_hexText 12 msecs
  have hlength := Lib.hexText_length 12 msecs
  have htake : matchesEach (List.replicate 8 isHex) ((hexText 12 msecs).take 8) = true :=
    matchesEach_hexDigits (by rw [List.length_take, hlength]; rfl)
      (fun c hc => hhex c (List.mem_of_mem_take hc))
  have hdrop : matchesEach (List.replicate 4 isHex) ((hexText 12 msecs).drop 8) = true :=
    matchesEach_hexDigits (by rw [List.length_drop, hlength])
      (fun c hc => hhex c (List.mem_of_mem_drop hc))
  have hmatch : matchesEach UUID_V7 (uuidText msecs).toList = true := by
    rw [toList_uuidText]
    refine Lib.matchesEach_append.mpr ⟨_, _, rfl, htake, ?_⟩
    refine Lib.matchesEach_cons.mpr ⟨_, _, rfl, rfl, ?_⟩
    exact Lib.matchesEach_append.mpr ⟨_, _, rfl, hdrop, by decide⟩
  have hlower : (uuidText msecs).toList.map Char.toLower = (uuidText msecs).toList := by
    have hsame : ∀ c ∈ hexText 12 msecs, c.toLower = c := fun c hc =>
      toLower_of_isLowerHex (hhex c hc)
    have htail : "-7000-8000-000000000000".toList.map Char.toLower =
        "-7000-8000-000000000000".toList := by decide
    rw [toList_uuidText, List.map_append, List.map_cons, List.map_append, htail,
      List.map_congr_left fun c hc => hsame c (List.mem_of_mem_take hc),
      List.map_congr_left fun c hc => hsame c (List.mem_of_mem_drop hc), List.map_id', List.map_id']
    rfl
  unfold IsGeneration decodeProvisioningGeneration
  rw [Option.bind_some, if_pos hmatch, hlower, String.ofList_toList]

theorem timestamp_uuidText {msecs : Nat} (h : msecs ≤ MAX_TIMESTAMP) :
    provisioningGenerationTimestamp (uuidText msecs) = msecs := by
  have hlength := Lib.hexText_length 12 msecs
  have htake : ((hexText 12 msecs).take 8).length = 8 := by rw [List.length_take, hlength]; rfl
  have hdrop : ((hexText 12 msecs).drop 8).length = 4 := by rw [List.length_drop, hlength]
  rw [timestamp_eq (toList_uuidText msecs) htake hdrop, List.take_append_drop, Lib.hexValue_hexText]
  exact Nat.lt_succ_of_le h

/-- Identifiers without random bits, at this time. -/
def plainUuidv7 (now : Nat) : Uuidv7 where
  fresh := uuidText now
  ofMsecs := uuidText
  isGeneration_fresh := isGeneration_uuidText now
  isGeneration_ofMsecs msecs _ := isGeneration_uuidText msecs
  timestamp_ofMsecs _ h := timestamp_uuidText h

end CliProxy.Isolation
