import Mathlib.Data.List.Nodup
import NetFT.Detail.Protocol
import NetFT.Library.Join

/-! The text of a status word (`status.cpp`): the names of the defined bits that are set, joined by
commas. The text determines the defined bits, and is empty for a word that has none of them. -/

namespace NetFT
open Detail Library

/-- `kStatusBits` -/
def statusBits : List (UInt32 × String) := [
  (0x80000000, "error summary"),
  (0x40000000, "CPU or RAM error"),
  (0x20000000, "digital board error"),
  (0x10000000, "analog board error"),
  (0x08000000, "serial link communication error"),
  (0x04000000, "program memory verification error"),
  (0x02000000, "halted due to configuration errors"),
  (0x01000000, "settings validation error"),
  (0x00800000, "configuration incompatible with calibration"),
  (0x00400000, "network communication failure"),
  (0x00200000, "CAN communication error"),
  (0x00100000, "RDT communication error"),
  (0x00080000, "EtherNet/IP protocol failure"),
  (0x00040000, "DeviceNet protocol failure"),
  (0x00020000, "transducer saturation or A/D error"),
  (0x00010000, "monitor condition latched"),
  (0x00004000, "watchdog timeout error"),
  (0x00002000, "stack check error"),
  (0x00001000, "serial EEPROM I2C failure"),
  (0x00000800, "serial flash SPI failure"),
  (0x00000400, "analog board watchdog timeout"),
  (0x00000200, "excessive strain gage excitation current"),
  (0x00000100, "insufficient strain gage excitation current"),
  (0x00000080, "artificial analog ground out of range"),
  (0x00000040, "analog board power supply too high"),
  (0x00000020, "analog board power supply too low"),
  (0x00000010, "serial link data unavailable"),
  (0x00000008, "reference voltage or power monitoring error"),
  (0x00000004, "internal temperature error"),
  (0x00000002, "HTTP protocol failure")]

/-- One iteration of the loop. -/
def appendName (status : UInt32) (result : String) (bit : UInt32 × String) : String :=
  if status &&& bit.1 ≠ 0 then (if result = "" then result else result ++ ", ") ++ bit.2
  else result

def decodeStatus (status : UInt32) : String :=
  if status = 0 then "healthy" else statusBits.foldl (appendName status) ""

variable {status s t : UInt32}

/-- The defined bits that are set. -/
def setBits (status : UInt32) : List (UInt32 × String) :=
  statusBits.filter fun bit => status &&& bit.1 ≠ 0

def setNames (status : UInt32) : List (List Char) := (setBits status).map fun bit => bit.2.toList

/-! ## The table -/

theorem masks_single :
    ∀ bit ∈ statusBits, ∃ k < 32, bit.1.toBitVec = BitVec.twoPow 32 k := by decide

theorem names_separable : Separable ',' (statusBits.map fun bit => bit.2.toList) := by
  unfold Separable
  decide +kernel

theorem names_nodup : (statusBits.map fun bit => bit.2).Nodup := by decide +kernel

theorem healthy_not_name : "healthy" ∉ statusBits.map fun bit => bit.2 := by decide +kernel

theorem and_or_distrib (a b c : UInt32) : a &&& (b ||| c) = (a &&& b) ||| (a &&& c) := by
  refine UInt32.eq_of_toBitVec_eq ?_
  rw [UInt32.toBitVec_and, UInt32.toBitVec_or, BitVec.and_or_distrib_left, UInt32.toBitVec_or,
    UInt32.toBitVec_and, UInt32.toBitVec_and]

/-- A word without the given bits has none of their union. -/
theorem and_union {bits : List (UInt32 × String)} (h : ∀ bit ∈ bits, status &&& bit.1 = 0) :
    status &&& bits.foldr (fun bit union => bit.1 ||| union) 0 = 0 := by
  induction bits with
  | nil => exact UInt32.and_zero
  | cons bit bits ih =>
    rw [List.foldr_cons, and_or_distrib, h bit List.mem_cons_self,
      ih fun bit' hbit' => h bit' (List.mem_cons_of_mem _ hbit')]
    rfl

/-- A single bit of a word is clear or set. -/
theorem and_twoPow {mask : UInt32} {k : Nat} (hmask : mask.toBitVec = BitVec.twoPow 32 k)
    (status : UInt32) : status &&& mask = 0 ∨ status &&& mask = mask := by
  have hand : (status &&& mask).toBitVec =
      if status.toBitVec.getLsbD k then BitVec.twoPow 32 k else 0#32 := by
    rw [UInt32.toBitVec_and, hmask, BitVec.and_twoPow]
  split at hand
  · exact .inr (UInt32.eq_of_toBitVec_eq (hand.trans hmask.symm))
  · exact .inl (UInt32.eq_of_toBitVec_eq hand)

theorem and_mask {bit : UInt32 × String} (hbit : bit ∈ statusBits) (status : UInt32) :
    status &&& bit.1 = 0 ∨ status &&& bit.1 = bit.1 := by
  obtain ⟨k, -, hmask⟩ := masks_single bit hbit
  exact and_twoPow hmask status

/-- The words without a defined bit. -/
theorem setBits_eq_nil :
    setBits status = [] ↔ status = 0 ∨ status = 0x1 ∨ status = 0x8000 ∨ status = 0x8001 := by
  have hclear : setBits status = [] ↔ ∀ bit ∈ statusBits, status &&& bit.1 = 0 := by
    simp [setBits, List.filter_eq_nil_iff]
  rw [hclear]
  constructor
  · intro h
    have hdefined : status &&& 0xffff7ffe = 0 := and_union h
    have hsplit : status = (status &&& 0xffff7ffe) ||| ((status &&& 0x1) ||| (status &&& 0x8000)) := by
      rw [← and_or_distrib, ← and_or_distrib]
      exact UInt32.and_neg_one.symm
    rw [hdefined] at hsplit
    have hlow : status &&& 0x1 = 0 ∨ status &&& 0x1 = 0x1 := and_twoPow (k := 0) rfl status
    have hhigh : status &&& 0x8000 = 0 ∨ status &&& 0x8000 = 0x8000 :=
      and_twoPow (k := 15) rfl status
    rcases hlow with hlow | hlow <;> rcases hhigh with hhigh | hhigh <;>
      rw [hlow, hhigh] at hsplit
    · exact .inl hsplit
    · exact .inr (.inr (.inl hsplit))
    · exact .inr (.inl hsplit)
    · exact .inr (.inr (.inr hsplit))
  · rintro (rfl | rfl | rfl | rfl) <;> decide

theorem setNames_separable (status : UInt32) : Separable ',' (setNames status) := by
  intro name hname
  obtain ⟨bit, hbit, rfl⟩ := List.mem_map.mp hname
  exact names_separable _ (List.mem_map_of_mem (List.mem_of_mem_filter hbit))

/-- The names determine the bits. -/
theorem mem_setBits_iff {bit : UInt32 × String} (hbit : bit ∈ statusBits) :
    bit ∈ setBits status ↔ bit.2.toList ∈ setNames status := by
  constructor
  · exact fun h => List.mem_map_of_mem h
  · intro h
    obtain ⟨bit', hbit', hname⟩ := List.mem_map.mp h
    have hsame : bit' = bit :=
      List.inj_on_of_nodup_map names_nodup (List.mem_of_mem_filter hbit') hbit
        (String.toList_inj.mp hname)
    exact hsame ▸ hbit'

/-! ## The text -/

theorem appendName_toList (result : String) (bit : UInt32 × String) :
    (appendName status result bit).toList =
      if status &&& bit.1 ≠ 0 then joinItem ", ".toList result.toList bit.2.toList
      else result.toList := by
  unfold appendName joinItem
  split
  · rw [String.toList_append]
    congr 1
    by_cases hempty : result = ""
    · rw [if_pos hempty, if_pos (String.toList_eq_nil_iff.mpr hempty)]
    · rw [if_neg hempty, if_neg (fun hnil => hempty (String.toList_eq_nil_iff.mp hnil)),
        String.toList_append]
  · rfl

theorem foldl_appendName (bits : List (UInt32 × String)) (result : String) :
    (bits.foldl (appendName status) result).toList =
      ((bits.filter fun bit => status &&& bit.1 ≠ 0).map fun bit => bit.2.toList).foldl
        (joinItem ", ".toList) result.toList := by
  induction bits generalizing result with
  | nil => rfl
  | cons bit bits ih =>
    rw [List.foldl_cons, ih, appendName_toList, List.filter_cons]
    by_cases hset : status &&& bit.1 ≠ 0
    · rw [if_pos hset, if_pos (decide_eq_true hset)]
      rfl
    · rw [if_neg hset, if_neg (by simpa using hset)]

theorem decodeStatus_toList (h : status ≠ 0) :
    (decodeStatus status).toList = joined ", ".toList (setNames status) := by
  rw [decodeStatus, if_neg h, foldl_appendName]
  rfl

/-- The names that are joined can be told apart. -/
theorem joined_names_injective {names names' : List (List Char)} (h : Separable ',' names)
    (h' : Separable ',' names') (heq : joined ", ".toList names = joined ", ".toList names') :
    names = names' :=
  joined_injective (c := ',') (by decide) h h' heq

theorem decodeStatus_ne_healthy (h : status ≠ 0) : decodeStatus status ≠ "healthy" := by
  intro heq
  have hlist := congrArg String.toList heq
  rw [decodeStatus_toList h] at hlist
  have hhealthy : Separable ',' ["healthy".toList] := by unfold Separable; decide
  have hnames : setNames status = ["healthy".toList] :=
    joined_names_injective (setNames_separable status) hhealthy hlist
  have hmem : "healthy".toList ∈ setNames status := by rw [hnames]; exact List.mem_singleton_self _
  obtain ⟨bit, hbit, hname⟩ := List.mem_map.mp hmem
  exact healthy_not_name
    (String.toList_inj.mp hname ▸ List.mem_map_of_mem (List.mem_of_mem_filter hbit))

theorem decodeStatus_eq_empty (h : status ≠ 0) : decodeStatus status = "" ↔ setBits status = [] := by
  rw [← String.toList_eq_nil_iff, decodeStatus_toList h, joined_eq_nil (setNames_separable status),
    setNames, List.map_eq_nil_iff]

theorem setNames_of_text (h : decodeStatus s = decodeStatus t) : setNames s = setNames t := by
  by_cases hs : s = 0
  · by_cases ht : t = 0
    · rw [hs, ht]
    · exact absurd (h.symm.trans (by rw [hs]; rfl)) (decodeStatus_ne_healthy ht)
  · by_cases ht : t = 0
    · exact absurd (h.trans (by rw [ht]; rfl)) (decodeStatus_ne_healthy hs)
    · have hlist := congrArg String.toList h
      rw [decodeStatus_toList hs, decodeStatus_toList ht] at hlist
      exact joined_names_injective (setNames_separable s) (setNames_separable t) hlist

/-- The text is the healthy one exactly for the status that is classified as such; of the others,
it is empty exactly for those without a defined bit; and it determines all defined bits. -/
theorem status_text (s t : UInt32) :
    (decodeStatus s = "healthy" ↔ classifyStatus s = .ok) ∧
    (classifyStatus s = .warn ∨ classifyStatus s = .error →
      (decodeStatus s = "" ↔ s = 0x1 ∨ s = 0x8000 ∨ s = 0x8001)) ∧
    (decodeStatus s = decodeStatus t → ∀ bit ∈ statusBits, s &&& bit.1 = t &&& bit.1) := by
  have hok : classifyStatus s = .ok ↔ s = 0 := by
    unfold classifyStatus
    split
    · simp_all
    · split <;> simp_all
  refine ⟨?_, fun hbad => ?_, fun h bit hbit => ?_⟩
  · rw [hok]
    constructor
    · exact fun h => by_contra fun hs => decodeStatus_ne_healthy hs h
    · rintro rfl
      rfl
  · have hs : s ≠ 0 := fun hzero => by
      rw [hok.mpr hzero] at hbad
      simp at hbad
    rw [decodeStatus_eq_empty hs, setBits_eq_nil]
    simp [hs]
  · have hset : bit ∈ setBits s ↔ bit ∈ setBits t := by
      rw [mem_setBits_iff hbit, mem_setBits_iff hbit, setNames_of_text h]
    have hsame : s &&& bit.1 ≠ 0 ↔ t &&& bit.1 ≠ 0 := by
      simpa [setBits, List.mem_filter, hbit] using hset
    by_cases hzero : s &&& bit.1 = 0
    · have ht : t &&& bit.1 = 0 := not_not.mp fun ht => hsame.mpr ht hzero
      rw [hzero, ht]
    · rw [(and_mask hbit s).resolve_left hzero, (and_mask hbit t).resolve_left (hsame.mp hzero)]

/-- A status without a defined bit is an error that has no text. -/
theorem undefined_bit_without_text :
    classifyStatus 0x8000 = .error ∧ decodeStatus 0x8000 = "" := by decide +kernel

end NetFT
