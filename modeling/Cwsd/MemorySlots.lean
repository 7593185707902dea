import Cwsd.KeyerMachine
import Cwsd.Runs
import Cwsd.Slots
import Cwsd.StringUtil
import Mathlib.Data.List.GetD

namespace Cwsd.MemorySlots

open KeyerState KeyerMachine Runs Slots StringUtil

/-- The calls that write to the memory slots. -/
inductive Call
  | setMemory (slot : UInt8) (content : List UInt8)
  | startRecording (slot : UInt8)
  | addChar (c : UInt8)
  | stopRecording
  deriving DecidableEq

/-- The part of a text that set_memory stores. -/
def stored (content : List UInt8) : List UInt8 := (cString content).take (memorySlotSize - 1)

def withoutSpace (text : List UInt8) : List UInt8 :=
  if text.getLast? = some ' '.toUInt8 then text.dropLast else text

section

variable {F : Type}

def bytes (k : Keyer F) (slot : UInt8) : List UInt8 := Slots.slot memorySlotSize k.memory slot.toNat

/-- Where the text of a slot begins; the memory goes on behind the slot. -/
def getMemory (slot : UInt8) (k : Keyer F) : Option (List UInt8) :=
  if slot.toNat < memorySlots then some (k.memory.drop (slot.toNat * memorySlotSize)) else none

def InSlot (slot : UInt8) (index : Int) : Prop := slot.toNat < memorySlots ∧ 0 ≤ index ∧ index < memorySlotSize

instance (slot : UInt8) (index : Int) : Decidable (InSlot slot index) := inferInstanceAs (Decidable (_ ∧ _ ∧ _))

def storeAt (slot : UInt8) (index : Int) (c : UInt8) (k : Keyer F) : Option (Keyer F) :=
  if InSlot slot index then some (setMemoryAt slot index c k) else none

def loadAt (slot : UInt8) (index : Int) (k : Keyer F) : Option UInt8 :=
  if InSlot slot index then some (memoryAt k slot index) else none

def setMemoryChecked (slot : UInt8) (content : List UInt8) (k : Keyer F) : Option (Keyer F) :=
  if slot.toNat < memorySlots then (stored content).zipIdx.foldlM (fun k c => storeAt slot c.2 c.1 k) k
  else some k

def stopRecordingChecked (k : Keyer F) : Option (Keyer F) := do
  let k ← storeAt k.recordingSlot k.recordingIndex.toNat 0 k
  let last : Int := (k.recordingIndex.toNat : Int) - 1
  let c ← loadAt k.recordingSlot last k
  let k ← if c = ' '.toUInt8 then storeAt k.recordingSlot last 0 k else some k
  some (emit .recordStopped { k with isRecording := false })

def addCharChecked (c : UInt8) (k : Keyer F) : Option (Keyer F) := do
  let k ← storeAt k.recordingSlot k.recordingIndex.toNat c k
  let k := { k with recordingIndex := k.recordingIndex + 1 }
  if k.recordingIndex.toNat < memorySlotSize then some k else stopRecordingChecked k

def apply (k : Keyer F) : Call → Keyer F
  | .setMemory slot content => setMemory slot content k
  | .startRecording slot => startRecording slot k
  | .addChar c => addCharToRecordingMemory c k
  | .stopRecording => stopRecording k

/-- The same calls, none where one reads or writes outside of the slot it addresses. -/
def applyChecked (k : Keyer F) : Call → Option (Keyer F)
  | .setMemory slot content => setMemoryChecked slot content k
  | .startRecording slot => some (startRecording slot k)
  | .addChar c => addCharChecked c k
  | .stopRecording => stopRecordingChecked k

def addressed (k : Keyer F) : Call → UInt8
  | .setMemory slot _ | .startRecording slot => slot
  | .addChar _ | .stopRecording => k.recordingSlot

def step (k : Keyer F) (call : Call) : Option (Keyer F) := some (apply k call)

/-- Where a call does what it is for. A text needs a NUL where it ends and must not spoil what is being
recorded; there is room for 255 characters; and what is stopped is a recording with something in it, or
one whose end is as it was left. -/
def Fits (k : Keyer F) : Call → Prop
  | .setMemory slot content =>
      slot.toNat < memorySlots ∧ memoryAt k slot (stored content).length = 0 ∧
        (k.isRecording = true → slot = k.recordingSlot →
          (stored content).take k.recordingIndex.toNat <+: bytes k slot)
  | .startRecording slot => slot.toNat < memorySlots
  | .addChar c => k.isRecording = true ∧ k.recordingIndex.toNat < memorySlotSize - 1 ∧ c ≠ 0
  | .stopRecording =>
      0 < k.recordingIndex.toNat ∧ k.recordingIndex.toNat < memorySlotSize ∧
        (k.isRecording = true ∨ memoryAt k k.recordingSlot k.recordingIndex.toNat = 0 ∧
          memoryAt k k.recordingSlot ((k.recordingIndex.toNat : Int) - 1) ≠ ' '.toUInt8)

instance (k : Keyer F) (call : Call) : Decidable (Fits k call) :=
  match call with
  | .setMemory _ _ => inferInstanceAs (Decidable (_ ∧ _ ∧ (_ → _ → _)))
  | .startRecording _ => inferInstanceAs (Decidable (_ < _))
  | .addChar _ => inferInstanceAs (Decidable (_ ∧ _ ∧ _))
  | .stopRecording => inferInstanceAs (Decidable (_ ∧ _ ∧ (_ ∨ _ ∧ _)))

/-- The characters recorded so far, and the text that each slot is to hold, if any. -/
structure Notes where
  recorded : List UInt8
  contents : UInt8 → Option (List UInt8)

def Notes.start : Notes := ⟨[], fun _ => some []⟩

def note (k : Keyer F) : Call → Notes → Notes
  | .setMemory slot content, w => { w with contents := Function.update w.contents slot (some (stored content)) }
  | .startRecording _, w => { w with recorded := [] }
  | .addChar c, w =>
      { recorded := w.recorded ++ [c], contents := Function.update w.contents k.recordingSlot none }
  | .stopRecording, w =>
      if k.isRecording then
        { w with contents := Function.update w.contents k.recordingSlot (some (withoutSpace w.recorded)) }
      else w

theorem setMemoryAt_eq (slot : UInt8) (i : Nat) (c : UInt8) (k : Keyer F) :
    setMemoryAt slot i c k = { k with memory := k.memory.set (slot.toNat * memorySlotSize + i) c } := by
  have haddress : (slot.toNat : Int) * memorySlotSize + i = ((slot.toNat * memorySlotSize + i : Nat) : Int) := by
    push_cast
    rfl
  rw [setMemoryAt]
  rw [haddress, if_neg (Int.not_lt.mpr (Int.natCast_nonneg _)), Int.toNat_natCast]

theorem memoryAt_eq (k : Keyer F) (slot : UInt8) {i : Nat} (hi : i < memorySlotSize) :
    memoryAt k slot i = (bytes k slot).getD i 0 := by
  have haddress : (slot.toNat : Int) * memorySlotSize + i = ((slot.toNat * memorySlotSize + i : Nat) : Int) := by
    push_cast
    rfl
  rw [memoryAt]
  rw [haddress, if_neg (Int.not_lt.mpr (Int.natCast_nonneg _)), Int.toNat_natCast, bytes, Slots.slot,
    List.getD_eq_getElem?_getD, List.getD_eq_getElem?_getD, List.getElem?_take_of_lt hi, List.getElem?_drop]

theorem bytes_setMemoryAt (slot : UInt8) (i : Nat) (c : UInt8) (k : Keyer F) :
    bytes (setMemoryAt slot i c k) slot = (bytes k slot).set i c := by
  rw [setMemoryAt_eq]
  exact slot_set _ _ _ i c

theorem bytes_setMemoryAt_ne {slot other : UInt8} (hne : other ≠ slot) {i : Nat} (hi : i < memorySlotSize) (c : UInt8)
    (k : Keyer F) : bytes (setMemoryAt slot i c k) other = bytes k other := by
  rw [setMemoryAt_eq]
  exact slot_set_ne (fun h => hne (UInt8.toNat_inj.mp h)) hi _ c

theorem bytes_foldl (slot : UInt8) (cells : List (UInt8 × Nat)) (k : Keyer F) :
    bytes (cells.foldl (fun k c => setMemoryAt slot c.2 c.1 k) k) slot =
      cells.foldl (fun bytes c => bytes.set c.2 c.1) (bytes k slot) := by
  induction cells generalizing k with
  | nil => rfl
  | cons c cells ih => rw [List.foldl_cons, ih, bytes_setMemoryAt, List.foldl_cons]

theorem bytes_foldl_ne {slot other : UInt8} (hne : other ≠ slot) (cells : List (UInt8 × Nat))
    (hcells : ∀ c ∈ cells, c.2 < memorySlotSize) (k : Keyer F) :
    bytes (cells.foldl (fun k c => setMemoryAt slot c.2 c.1 k) k) other = bytes k other := by
  induction cells generalizing k with
  | nil => rfl
  | cons c cells ih =>
      obtain ⟨hc, hcells⟩ := List.forall_mem_cons.mp hcells
      rw [List.foldl_cons, ih hcells, bytes_setMemoryAt_ne hne hc]

theorem stored_length (content : List UInt8) : (stored content).length ≤ memorySlotSize - 1 := List.length_take_le _ _

theorem stored_ne (content : List UInt8) : 0 ∉ stored content := by
  intro hzero
  have hne := List.mem_takeWhile_imp (List.mem_of_mem_take hzero)
  exact absurd rfl (of_decide_eq_true hne)

theorem zipIdx_lt {text : List UInt8} {size : Nat} (h : text.length ≤ size) : ∀ c ∈ text.zipIdx, c.2 < size := by
  intro c hc
  have hlt := List.snd_lt_of_mem_zipIdx hc
  omega

theorem setMemory_eq {slot : UInt8} (hslot : slot.toNat < memorySlots) (content : List UInt8) (k : Keyer F) :
    setMemory slot content k = (stored content).zipIdx.foldl (fun k c => setMemoryAt slot c.2 c.1 k) k := if_pos hslot

def recorder (k : Keyer F) : (Bool × UInt8 × UInt16) × Nat :=
  ((k.isRecording, k.recordingSlot, k.recordingIndex), k.memory.length)

theorem recorder_eq_iff {k : Keyer F} {recording : Bool} {slot : UInt8} {index : UInt16} {size : Nat} :
    recorder k = ((recording, slot, index), size) ↔
      k.isRecording = recording ∧ k.recordingSlot = slot ∧ k.recordingIndex = index ∧ k.memory.length = size := by
  simp only [recorder, Prod.mk.injEq, and_assoc]

theorem recorder_setMemoryAt (slot : UInt8) (i : Nat) (c : UInt8) (k : Keyer F) :
    recorder (setMemoryAt slot i c k) = recorder k := by
  rw [setMemoryAt_eq, recorder, List.length_set, recorder]

theorem recorder_foldl (slot : UInt8) (cells : List (UInt8 × Nat)) (k : Keyer F) :
    recorder (cells.foldl (fun k c => setMemoryAt slot c.2 c.1 k) k) = recorder k := by
  induction cells generalizing k with
  | nil => rfl
  | cons c cells ih => rw [List.foldl_cons, ih, recorder_setMemoryAt]

theorem storeAt_eq {slot : UInt8} {i : Nat} (hslot : slot.toNat < memorySlots) (hi : i < memorySlotSize) (c : UInt8)
    (k : Keyer F) : storeAt slot i c k = some (setMemoryAt slot i c k) :=
  if_pos ⟨hslot, Int.natCast_nonneg i, Int.ofNat_lt.mpr hi⟩

theorem loadAt_eq {slot : UInt8} {i : Nat} (hslot : slot.toNat < memorySlots) (hi : i < memorySlotSize) (k : Keyer F) :
    loadAt slot i k = some (memoryAt k slot i) := if_pos ⟨hslot, Int.natCast_nonneg i, Int.ofNat_lt.mpr hi⟩

theorem foldlM_storeAt {slot : UInt8} (hslot : slot.toNat < memorySlots) (cells : List (UInt8 × Nat))
    (hcells : ∀ c ∈ cells, c.2 < memorySlotSize) (k : Keyer F) :
    cells.foldlM (fun k c => storeAt slot c.2 c.1 k) k =
      some (cells.foldl (fun k c => setMemoryAt slot c.2 c.1 k) k) := by
  induction cells generalizing k with
  | nil => rfl
  | cons c cells ih =>
      obtain ⟨hc, hcells⟩ := List.forall_mem_cons.mp hcells
      rw [List.foldlM_cons, storeAt_eq hslot hc, List.foldl_cons]
      exact ih hcells _

/-- What every run keeps: the texts of the slots, and of a recording what has been recorded. -/
structure Keeps (k : Keyer F) (w : Notes) : Prop where
  length : k.memory.length = memorySlots * memorySlotSize
  slot : k.recordingSlot.toNat < memorySlots
  texts : ∀ slot text, slot.toNat < memorySlots → w.contents slot = some text → Holds 0 (bytes k slot) text
  recorded : k.isRecording = true → w.recorded.length = k.recordingIndex.toNat ∧ 0 ∉ w.recorded ∧
    w.recorded <+: bytes k k.recordingSlot

namespace Keeps

variable {k : Keyer F} {w : Notes}

theorem length_bytes (h : Keeps k w) {slot : UInt8} (hslot : slot.toNat < memorySlots) :
    (bytes k slot).length = memorySlotSize := length_slot h.length hslot

end Keeps

section

variable {k : Keyer F} {w : Notes} {slot : UInt8} {content : List UInt8}

theorem texts_update (h : Keeps k w) {k' : Keyer F} {new : Option (List UInt8)}
    (hothers : ∀ other, other ≠ slot → bytes k' other = bytes k other)
    (hnew : ∀ text, slot.toNat < memorySlots → new = some text → Holds 0 (bytes k' slot) text) (other : UInt8)
    (text : List UInt8) (hother : other.toNat < memorySlots)
    (htext : Function.update w.contents slot new other = some text) : Holds 0 (bytes k' other) text := by
  by_cases hsame : other = slot
  · rw [hsame, Function.update_self] at htext
    rw [hsame] at hother ⊢
    exact hnew text hother htext
  · rw [Function.update_of_ne hsame] at htext
    rw [hothers other hsame]
    exact h.texts other text hother htext

theorem bytes_setMemory (h : Keeps k w) (hslot : slot.toNat < memorySlots) (content : List UInt8) :
    bytes (setMemory slot content k) slot = stored content ++ (bytes k slot).drop (stored content).length := by
  have hle := stored_length content
  have hlength := h.length_bytes hslot
  rw [setMemory_eq hslot, bytes_foldl, foldl_set _ _ (by omega)]

theorem bytes_setMemory_ne (hslot : slot.toNat < memorySlots) {other : UInt8} (hne : other ≠ slot) :
    bytes (setMemory slot content k) other = bytes k other := by
  have hle := stored_length content
  rw [setMemory_eq hslot]
  exact bytes_foldl_ne hne _ (zipIdx_lt (hle.trans (Nat.sub_le _ _))) k

theorem recorder_setMemory (hslot : slot.toNat < memorySlots) (content : List UInt8) (k : Keyer F) :
    recorder (setMemory slot content k) = recorder k := by
  rw [setMemory_eq hslot]
  exact recorder_foldl slot _ k

theorem setMemoryChecked_eq (hslot : slot.toNat < memorySlots) :
    setMemoryChecked slot content k = some (setMemory slot content k) := by
  have hle := stored_length content
  rw [setMemoryChecked, if_pos hslot, foldlM_storeAt hslot _ (zipIdx_lt (hle.trans (Nat.sub_le _ _))),
    setMemory_eq hslot]

theorem text_setMemory (h : Keeps k w) (hslot : slot.toNat < memorySlots)
    (hend : memoryAt k slot (stored content).length = 0) :
    Holds 0 (bytes (setMemory slot content k) slot) (stored content) := by
  have hle := stored_length content
  have hlength := h.length_bytes hslot
  have hlt : (stored content).length < memorySlotSize := by
    have hsize : memorySlotSize = 256 := rfl
    omega
  rw [memoryAt_eq k slot hlt, List.getD_eq_getElem (bytes k slot) 0 (by omega)] at hend
  refine ⟨stored_ne content, (bytes k slot).drop ((stored content).length + 1), ?_⟩
  rw [bytes_setMemory h hslot, List.drop_eq_getElem_cons (by omega), hend]

theorem recorded_setMemory (h : Keeps k w) (hslot : slot.toNat < memorySlots) (hon : k.isRecording = true)
    (hagrees : slot = k.recordingSlot → (stored content).take k.recordingIndex.toNat <+: bytes k slot) :
    w.recorded <+: bytes (setMemory slot content k) k.recordingSlot := by
  obtain ⟨hcount, -, hstart⟩ := h.recorded hon
  by_cases hsame : k.recordingSlot = slot
  · rw [hsame] at hstart ⊢
    rw [bytes_setMemory h hslot]
    apply start_kept hstart
    rw [hcount]
    exact hagrees hsame.symm
  · rw [bytes_setMemory_ne hslot hsame]
    exact hstart

theorem keeps_setMemory (h : Keeps k w) (hfits : Fits k (.setMemory slot content)) :
    Keeps (setMemory slot content k) (note k (.setMemory slot content) w) := by
  obtain ⟨hslot, hend, hagrees⟩ := hfits
  obtain ⟨hrecording, hrecordingSlot, hindex, hmemory⟩ := recorder_eq_iff.mp (recorder_setMemory hslot content k)
  constructor
  · rw [hmemory]
    exact h.length
  · rw [hrecordingSlot]
    exact h.slot
  · refine texts_update h (fun other hne => bytes_setMemory_ne hslot hne) fun text _ htext => ?_
    cases htext
    exact text_setMemory h hslot hend
  · intro hon
    rw [hrecording] at hon
    obtain ⟨hcount, hne, -⟩ := h.recorded hon
    have hstart := recorded_setMemory h hslot hon (hagrees hon)
    rw [hindex, hrecordingSlot]
    exact ⟨hcount, hne, hstart⟩

theorem keeps_startRecording (h : Keeps k w) (hfits : Fits k (.startRecording slot)) :
    Keeps (startRecording slot k) (note k (.startRecording slot) w) :=
  ⟨h.length, hfits, h.texts, fun _ => ⟨rfl, List.not_mem_nil, List.nil_prefix⟩⟩

theorem recording_split (h : Keeps k w) (hon : k.isRecording = true) (hlt : k.recordingIndex.toNat < memorySlotSize) :
    ∃ d rest, bytes k k.recordingSlot = w.recorded ++ d :: rest := by
  obtain ⟨hcount, -, rest, hrest⟩ := h.recorded hon
  have hlength := congrArg List.length hrest
  rw [List.length_append, h.length_bytes h.slot] at hlength
  cases rest with
  | nil =>
      rw [List.length_nil] at hlength
      omega
  | cons d rest => exact ⟨d, rest, hrest.symm⟩

theorem toNat_add_one {n : UInt16} (h : n.toNat ≤ memorySlotSize) : (n + 1).toNat = n.toNat + 1 :=
  BitVec.toNat_add_of_lt (y := 1) (Nat.lt_of_le_of_lt (Nat.succ_le_succ h) (by decide))

theorem addChar_eq {c : UInt8} (hfits : Fits k (.addChar c)) :
    addCharToRecordingMemory c k =
      { setMemoryAt k.recordingSlot k.recordingIndex.toNat c k with recordingIndex := k.recordingIndex + 1 } := by
  obtain ⟨-, hlt, -⟩ := hfits
  have hsize : memorySlotSize = 256 := rfl
  have hnext := toNat_add_one (n := k.recordingIndex) (by omega)
  rw [addCharToRecordingMemory, setMemoryAt_eq]
  refine if_pos ?_
  dsimp only
  omega

theorem keeps_addChar {c : UInt8} (h : Keeps k w) (hfits : Fits k (.addChar c)) :
    Keeps (addCharToRecordingMemory c k) (note k (.addChar c) w) := by
  obtain ⟨hon, hlt, hne⟩ := hfits
  have hsize : memorySlotSize = 256 := rfl
  have hroom : k.recordingIndex.toNat < memorySlotSize := by omega
  obtain ⟨hcount, hzero, -⟩ := h.recorded hon
  obtain ⟨d, rest, hsplit⟩ := recording_split h hon hroom
  have hset := bytes_setMemoryAt k.recordingSlot k.recordingIndex.toNat c k
  rw [hsplit, ← hcount, List.set_append_right _ _ (Nat.le_refl _), Nat.sub_self, List.set_cons_zero, hcount] at hset
  obtain ⟨-, hrecordingSlot, -, hmemory⟩ :=
    recorder_eq_iff.mp (recorder_setMemoryAt k.recordingSlot k.recordingIndex.toNat c k)
  rw [addChar_eq ⟨hon, hlt, hne⟩]
  constructor
  · exact hmemory.trans h.length
  · exact (congrArg (UInt8.toNat · < memorySlots) hrecordingSlot).mpr h.slot
  · refine texts_update h (fun other hne => bytes_setMemoryAt_ne hne hroom c k) fun text _ htext => ?_
    cases htext
  · intro _
    refine ⟨?_, ?_, ?_⟩
    · exact (List.length_append.trans (congrArg (· + 1) hcount)).trans (toNat_add_one hroom.le).symm
    · intro hmem
      rcases List.mem_append.mp hmem with hold | hnew
      · exact hzero hold
      · exact hne (List.mem_singleton.mp hnew).symm
    · refine ⟨rest, ?_⟩
      have hbytes : bytes (setMemoryAt k.recordingSlot k.recordingIndex.toNat c k)
          (setMemoryAt k.recordingSlot k.recordingIndex.toNat c k).recordingSlot = w.recorded ++ c :: rest := by
        rw [hrecordingSlot]
        exact hset
      refine (List.append_assoc _ _ _).trans ?_
      exact hbytes.symm

def withoutSpaceAt (slot : UInt8) (i : Nat) (k : Keyer F) : Keyer F :=
  if memoryAt k slot i = ' '.toUInt8 then setMemoryAt slot i 0 k else k

theorem bytes_withoutSpaceAt (slot : UInt8) {i : Nat} (hi : i < memorySlotSize) (k : Keyer F) :
    bytes (withoutSpaceAt slot i k) slot =
      if (bytes k slot).getD i 0 = ' '.toUInt8 then (bytes k slot).set i 0 else bytes k slot := by
  rw [withoutSpaceAt, memoryAt_eq k slot hi]
  split
  · exact bytes_setMemoryAt slot i 0 k
  · rfl

theorem bytes_withoutSpaceAt_ne {other : UInt8} (hne : other ≠ slot) {i : Nat} (hi : i < memorySlotSize)
    (k : Keyer F) : bytes (withoutSpaceAt slot i k) other = bytes k other := by
  rw [withoutSpaceAt]
  split
  · exact bytes_setMemoryAt_ne hne hi 0 k
  · rfl

theorem recorder_withoutSpaceAt (slot : UInt8) (i : Nat) (k : Keyer F) :
    recorder (withoutSpaceAt slot i k) = recorder k := by
  rw [withoutSpaceAt]
  split
  · exact recorder_setMemoryAt slot i 0 k
  · rfl

theorem stopRecording_eq (hpos : 0 < k.recordingIndex.toNat) :
    stopRecording k =
      emit .recordStopped
        { withoutSpaceAt k.recordingSlot (k.recordingIndex.toNat - 1)
            (setMemoryAt k.recordingSlot k.recordingIndex.toNat 0 k) with isRecording := false } := by
  have hlast : (k.recordingIndex.toNat : Int) - 1 = (k.recordingIndex.toNat - 1 : Nat) := (Int.ofNat_sub hpos).symm
  rw [stopRecording, setMemoryAt_eq, hlast]
  rfl

theorem bytes_stopRecording (hpos : 0 < k.recordingIndex.toNat) (hlt : k.recordingIndex.toNat < memorySlotSize) :
    bytes (stopRecording k) k.recordingSlot =
      let ended := (bytes k k.recordingSlot).set k.recordingIndex.toNat 0
      if ended.getD (k.recordingIndex.toNat - 1) 0 = ' '.toUInt8 then ended.set (k.recordingIndex.toNat - 1) 0
      else ended := by
  have hbytes := bytes_withoutSpaceAt k.recordingSlot (show k.recordingIndex.toNat - 1 < memorySlotSize by omega)
    (setMemoryAt k.recordingSlot k.recordingIndex.toNat 0 k)
  rw [bytes_setMemoryAt] at hbytes
  rw [stopRecording_eq hpos]
  exact hbytes

theorem bytes_stopRecording_ne (hpos : 0 < k.recordingIndex.toNat) (hlt : k.recordingIndex.toNat < memorySlotSize)
    {other : UInt8} (hne : other ≠ k.recordingSlot) : bytes (stopRecording k) other = bytes k other := by
  have hbytes := bytes_withoutSpaceAt_ne hne (show k.recordingIndex.toNat - 1 < memorySlotSize by omega)
    (setMemoryAt k.recordingSlot k.recordingIndex.toNat 0 k)
  rw [bytes_setMemoryAt_ne hne hlt] at hbytes
  rw [stopRecording_eq hpos]
  exact hbytes

theorem recorder_stopRecording (hpos : 0 < k.recordingIndex.toNat) :
    recorder (stopRecording k) = ((false, k.recordingSlot, k.recordingIndex), k.memory.length) := by
  have hkept := recorder_withoutSpaceAt k.recordingSlot (k.recordingIndex.toNat - 1)
    (setMemoryAt k.recordingSlot k.recordingIndex.toNat 0 k)
  rw [recorder_setMemoryAt] at hkept
  obtain ⟨-, hslot, hindex, hlength⟩ := recorder_eq_iff.mp hkept
  rw [stopRecording_eq hpos]
  exact recorder_eq_iff.mpr ⟨rfl, hslot, hindex, hlength⟩

theorem holds_withoutSpace {recorded rest : List UInt8} (hne : recorded ≠ []) (hzero : 0 ∉ recorded) :
    Holds 0
      (if (recorded ++ 0 :: rest).getD (recorded.length - 1) 0 = ' '.toUInt8 then
        (recorded ++ 0 :: rest).set (recorded.length - 1) 0
      else recorded ++ 0 :: rest) (withoutSpace recorded) := by
  obtain ⟨before, last, rfl⟩ := (List.eq_nil_or_concat' recorded).resolve_left hne
  have hlength : (before ++ [last]).length - 1 = before.length := by
    rw [List.length_append, List.length_singleton, Nat.add_sub_cancel]
  have hcells : before ++ [last] ++ 0 :: rest = before ++ last :: 0 :: rest := List.append_cons _ _ _ |>.symm
  have hbefore : 0 ∉ before := fun h => hzero (List.mem_append_left _ h)
  rw [hlength, hcells, List.getD_append_right _ _ _ _ (Nat.le_refl _), Nat.sub_self, List.getD_cons_zero, withoutSpace,
    List.getLast?_concat]
  by_cases hspace : last = ' '.toUInt8
  · rw [if_pos hspace, if_pos (congrArg some hspace), List.dropLast_concat,
      List.set_append_right _ _ (Nat.le_refl _), Nat.sub_self, List.set_cons_zero]
    exact ⟨hbefore, 0 :: rest, rfl⟩
  · rw [if_neg hspace, if_neg (fun h => hspace (Option.some.inj h))]
    exact ⟨hzero, rest, hcells.symm⟩

theorem text_stopRecording (h : Keeps k w) (hfits : Fits k .stopRecording) (hon : k.isRecording = true) :
    Holds 0 (bytes (stopRecording k) k.recordingSlot) (withoutSpace w.recorded) := by
  obtain ⟨hpos, hlt, -⟩ := hfits
  obtain ⟨hcount, hzero, -⟩ := h.recorded hon
  obtain ⟨d, rest, hsplit⟩ := recording_split h hon hlt
  have hne : w.recorded ≠ [] := by
    rw [← List.length_pos_iff_ne_nil, hcount]
    exact hpos
  have hbytes := bytes_stopRecording hpos hlt
  rw [hsplit, ← hcount, List.set_append_right _ _ (Nat.le_refl _), Nat.sub_self, List.set_cons_zero] at hbytes
  rw [hbytes]
  exact holds_withoutSpace hne hzero

/-- With nothing being recorded, the cells that are written hold already what is written to them. -/
theorem bytes_stopRecording_idle (h : Keeps k w) (hfits : Fits k .stopRecording) (hoff : ¬ k.isRecording = true)
    (other : UInt8) : bytes (stopRecording k) other = bytes k other := by
  obtain ⟨hpos, hlt, hend⟩ := hfits
  by_cases hrecording : other = k.recordingSlot
  · obtain ⟨hnul, hspace⟩ := hend.resolve_left hoff
    have hlast : (k.recordingIndex.toNat : Int) - 1 = (k.recordingIndex.toNat - 1 : Nat) := (Int.ofNat_sub hpos).symm
    have hlength := h.length_bytes h.slot
    rw [memoryAt_eq _ _ hlt, List.getD_eq_getElem (bytes k k.recordingSlot) 0 (by omega)] at hnul
    rw [hlast, memoryAt_eq _ _ (by omega)] at hspace
    have hsame : (bytes k k.recordingSlot).set k.recordingIndex.toNat 0 = bytes k k.recordingSlot := by
      rw [← hnul, List.set_getElem_self]
    rw [hrecording, bytes_stopRecording hpos hlt, hsame]
    exact if_neg hspace
  · exact bytes_stopRecording_ne hpos hlt hrecording

theorem keeps_stopRecording (h : Keeps k w) (hfits : Fits k .stopRecording) :
    Keeps (stopRecording k) (note k .stopRecording w) := by
  obtain ⟨hoff, hrecordingSlot, -, hmemory⟩ := recorder_eq_iff.mp (recorder_stopRecording hfits.1)
  refine ⟨hmemory.trans h.length, ?_, ?_, ?_⟩
  · rw [hrecordingSlot]
    exact h.slot
  · cases hon : k.isRecording with
    | true =>
        rw [note, if_pos hon]
        refine texts_update h (fun other hne => bytes_stopRecording_ne hfits.1 hfits.2.1 hne) fun text _ htext => ?_
        cases htext
        exact text_stopRecording h hfits hon
    | false =>
        have hoff' : ¬ k.isRecording = true := by
          rw [hon]
          decide
        rw [note, if_neg hoff']
        intro other text hother htext
        rw [bytes_stopRecording_idle h hfits hoff']
        exact h.texts other text hother htext
  · intro hon
    rw [hoff] at hon
    cases hon

theorem stopRecordingChecked_eq (hslot : k.recordingSlot.toNat < memorySlots) (hpos : 0 < k.recordingIndex.toNat)
    (hlt : k.recordingIndex.toNat < memorySlotSize) : stopRecordingChecked k = some (stopRecording k) := by
  have hlast : (k.recordingIndex.toNat : Int) - 1 = (k.recordingIndex.toNat - 1 : Nat) := (Int.ofNat_sub hpos).symm
  have hlt' : k.recordingIndex.toNat - 1 < memorySlotSize := by omega
  rw [stopRecording_eq hpos, stopRecordingChecked, storeAt_eq hslot hlt, withoutSpaceAt]
  generalize hended : setMemoryAt k.recordingSlot k.recordingIndex.toNat 0 k = ended
  have hrecorder : recorder ended = recorder k := by
    rw [← hended]
    exact recorder_setMemoryAt _ _ _ k
  obtain ⟨-, hendedSlot, hendedIndex, -⟩ := recorder_eq_iff.mp hrecorder
  simp only [Option.bind_eq_bind, Option.bind_some, hendedSlot, hendedIndex, hlast, loadAt_eq hslot hlt',
    storeAt_eq hslot hlt']
  split
  · rfl
  · rw [← hendedSlot, ← hendedIndex]

theorem addCharChecked_eq {c : UInt8} (hslot : k.recordingSlot.toNat < memorySlots) (hfits : Fits k (.addChar c)) :
    addCharChecked c k = some (addCharToRecordingMemory c k) := by
  obtain ⟨hon, hlt, hne⟩ := hfits
  have hsize : memorySlotSize = 256 := rfl
  have hroom : k.recordingIndex.toNat < memorySlotSize := by omega
  have hnext := toNat_add_one hroom.le
  rw [addChar_eq ⟨hon, hlt, hne⟩, addCharChecked, storeAt_eq hslot hroom, setMemoryAt_eq]
  refine if_pos ?_
  dsimp only
  omega

theorem applyChecked_eq (h : Keeps k w) {call : Call} (hfits : Fits k call) :
    applyChecked k call = some (apply k call) := by
  cases call with
  | setMemory slot content => exact setMemoryChecked_eq hfits.1
  | startRecording slot => rfl
  | addChar c => exact addCharChecked_eq h.slot hfits
  | stopRecording => exact stopRecordingChecked_eq h.slot hfits.1 hfits.2.1

theorem apply_frame {call : Call} (hfits : Fits k call) {other : UInt8} (hne : other ≠ addressed k call) :
    bytes (apply k call) other = bytes k other := by
  cases call with
  | setMemory slot content => exact bytes_setMemory_ne hfits.1 hne
  | startRecording slot => rfl
  | addChar c =>
      have hroom : k.recordingIndex.toNat < memorySlotSize := Nat.lt_of_lt_pred hfits.2.1
      exact (congrArg (bytes · other) (addChar_eq hfits)).trans (bytes_setMemoryAt_ne hne hroom c k)
  | stopRecording => exact bytes_stopRecording_ne hfits.1 hfits.2.1 hne

theorem keeps_apply (h : Keeps k w) {call : Call} (hfits : Fits k call) :
    Keeps (apply k call) (note k call w) := by
  cases call with
  | setMemory slot content => exact keeps_setMemory h hfits
  | startRecording slot => exact keeps_startRecording h hfits
  | addChar c => exact keeps_addChar h hfits
  | stopRecording => exact keeps_stopRecording h hfits

/-- The text of a slot is what a reader of the memory finds from its start on. -/
theorem getMemory_text (h : Keeps k w) {text : List UInt8} (hslot : slot.toNat < memorySlots)
    (htext : w.contents slot = some text) : (getMemory slot k).map cString = some text := by
  rw [getMemory, if_pos hslot, Option.map_some, drop_eq]
  exact congrArg some ((h.texts slot text hslot htext).takeWhile _)

end

variable [SinglePrecision F]

theorem keeps_init (a : Answers) : Keeps (init a (Keyer.zero : Keyer F)) Notes.start := by
  have hempty (slot : UInt8) (hslot : slot.toNat < memorySlots) :
      bytes (init a (Keyer.zero : Keyer F)) slot = List.replicate memorySlotSize 0 := by
    have hmemory : (init a (Keyer.zero : Keyer F)).memory = List.replicate (memorySlots * memorySlotSize) 0 := rfl
    rw [bytes, hmemory, Slots.slot, List.drop_replicate, List.take_replicate]
    congr 1
    rw [← Nat.sub_mul]
    exact Nat.min_eq_left (Nat.le_mul_of_pos_left _ (Nat.sub_pos_of_lt hslot))
  have hfirst : (0 : UInt8).toNat < memorySlots := by decide
  refine ⟨List.length_replicate, hfirst, ?_, ?_⟩
  · intro slot text hslot htext
    cases htext
    rw [hempty slot hslot]
    exact ⟨List.not_mem_nil, List.replicate (memorySlotSize - 1) 0, rfl⟩
  · intro hon
    cases hon

/-- In every run of calls that fit, each call reads and writes within the slot it addresses and leaves the
other slots as they are, and each slot reads as the text that was stored in it last: what was given to
set_memory, or what was recorded when the recording stopped. -/
theorem slots_hold_texts (a : Answers) (calls : List Call) (k : Keyer F) (w : Notes)
    (hrun : Run (observed step note) (fun s call => Fits s.1 call) (init a Keyer.zero, Notes.start) calls (k, w)) :
    (∀ call, Fits k call → applyChecked k call = some (apply k call) ∧
      ∀ other, other ≠ addressed k call → bytes (apply k call) other = bytes k other) ∧
    ∀ slot text, slot.toNat < memorySlots → w.contents slot = some text →
      (getMemory slot k).map cString = some text := by
  have hkeeps : Keeps k w := by
    refine hrun.invariant (fun s => Keeps s.1 s.2) (keeps_init a) ?_
    intro s call s' hs hfits hstep
    obtain ⟨happly, hnote⟩ := observed_eq_some.mp hstep
    rw [hnote, ← Option.some.inj happly]
    exact keeps_apply hs hfits
  exact ⟨fun call hfits => ⟨applyChecked_eq hkeeps hfits, fun other hne => apply_frame hfits hne⟩,
    fun slot text hslot htext => getMemory_text hkeeps hslot htext⟩

end

/-- A recording that is stopped before its first character looks at the cell in front of its slot. -/
theorem emptyRecording_leaves_slot {F : Type} {k : Keyer F} (hindex : k.recordingIndex = 0) :
    applyChecked k .stopRecording = none := by
  have hzero : k.recordingIndex.toNat = 0 := congrArg UInt16.toNat hindex
  rw [applyChecked, stopRecordingChecked, storeAt]
  split
  · have hbefore : ¬ InSlot k.recordingSlot ((k.recordingIndex.toNat : Int) - 1) := by
      rw [hzero]
      exact fun h => absurd h.2.1 (by decide)
    rw [setMemoryAt_eq]
    simp only [Option.bind_eq_bind, Option.bind_some, loadAt, if_neg hbefore, Option.bind_none]
  · rfl

theorem stopRecordingChecked_outside {F : Type} {k : Keyer F} (hindex : k.recordingIndex.toNat = memorySlotSize) :
    stopRecordingChecked k = none := by
  have hbehind : ¬ InSlot k.recordingSlot k.recordingIndex.toNat := by
    rw [hindex]
    exact fun h => absurd h.2.2 (by decide)
  rw [stopRecordingChecked, storeAt, if_neg hbehind]
  rfl

/-- The character that fills the slot ends the recording behind the slot. -/
theorem fullRecording_leaves_slot {F : Type} {k : Keyer F} (hindex : k.recordingIndex = 255) (c : UInt8) :
    applyChecked k (.addChar c) = none := by
  have hnext : (k.recordingIndex + 1).toNat = memorySlotSize := by
    rw [hindex]
    decide
  rw [applyChecked, addCharChecked, storeAt]
  split
  · rw [setMemoryAt_eq]
    refine (if_neg ?_).trans (stopRecordingChecked_outside hnext)
    exact (Nat.le_of_eq hnext.symm).not_gt
  · rfl

/-- A shorter text does not end where it should, and recordings leave their slot when they are empty and
when they fill it. -/
theorem shorterText_keeps_tail :
    (getMemory 0 ([.setMemory 0 (ascii "HELLO"), .setMemory 0 (ascii "HI")].foldl apply
        (init (.quiet 0) (Keyer.zero : Keyer ℚ)))).map cString = some (ascii "HILLO") ∧
      applyChecked (apply (init (.quiet 0) (Keyer.zero : Keyer ℚ)) (.startRecording 1)) .stopRecording = none ∧
      applyChecked ((List.replicate 255 (.addChar 'E'.toUInt8)).foldl apply
        (apply (init (.quiet 0) (Keyer.zero : Keyer ℚ)) (.startRecording 1))) (.addChar 'E'.toUInt8) = none :=
  ⟨by decide +kernel, emptyRecording_leaves_slot rfl, fullRecording_leaves_slot (by decide +kernel) _⟩

def recordThenSet : List Call :=
  [.startRecording 1, .addChar 'H'.toUInt8, .addChar 'I'.toUInt8, .addChar ' '.toUInt8, .stopRecording,
    .setMemory 0 (ascii "HELLO")]

theorem recordThenSet_holds : ∃ (k : Keyer ℚ) (w : Notes),
    Run (observed step note) (fun s call => Fits s.1 call) (init (.quiet 0) Keyer.zero, Notes.start) recordThenSet
        (k, w) ∧
      (getMemory 1 k).map cString = some (ascii "HI") ∧ (getMemory 0 k).map cString = some (ascii "HELLO") := by
  obtain ⟨⟨k, w⟩, hrun, hview⟩ := run_of_exec_map (observed step note) (fun s call => Fits s.1 call)
    (init (.quiet 0) (Keyer.zero : Keyer ℚ), Notes.start) recordThenSet (fun s => (s.2.contents 1, s.2.contents 0))
    (some (ascii "HI"), some (ascii "HELLO")) (by decide +kernel)
  obtain ⟨hone, hzero⟩ := Prod.mk.inj hview
  obtain ⟨-, htexts⟩ := slots_hold_texts (.quiet 0) recordThenSet k w hrun
  exact ⟨k, w, hrun, htexts 1 _ (by decide) hone, htexts 0 _ (by decide) hzero⟩

end Cwsd.MemorySlots
