import Cwsd.Stoi
import Cwsd.Delimited
import Mathlib.Data.List.DropRight
import Mathlib.Tactic.Common

namespace Cwsd.StringUtil

open Stoi Delimited

def ascii (text : String) : List UInt8 := text.toList.map Char.toUInt8

/-- The characters that are trimmed are those that isSpace accepts. -/
def ltrim (str : List UInt8) : List UInt8 := str.dropWhile isSpace

def rtrim (str : List UInt8) : List UInt8 := str.rdropWhile isSpace

def trim (str : List UInt8) : List UInt8 := ltrim (rtrim str)

def startsWith (haystack needle : List UInt8) : Bool := needle.isPrefixOf haystack

/-- The text as a C function sees it, up to the first NUL. -/
def cString (str : List UInt8) : List UInt8 := str.takeWhile (· ≠ 0)

def findFrom (needle : List UInt8) : List UInt8 → Nat → Option Nat
  | [], i => if needle = [] then some i else none
  | c :: text, i => if startsWith (c :: text) needle then some i else findFrom needle text (i + 1)

def find (str needle : List UInt8) (pos : Nat) : Option Nat :=
  if pos ≤ str.length then findFrom needle (str.drop pos) pos else none

theorem startsWith_iff {haystack needle : List UInt8} :
    startsWith haystack needle = true ↔ needle <+: haystack := List.isPrefixOf_iff_prefix

theorem findFrom_some {needle text : List UInt8} {i j : Nat} (h : findFrom needle text i = some j) :
    ∃ k, j = i + k ∧ needle <+: text.drop k ∧ ∀ m < k, ¬ needle <+: text.drop m := by
  induction text generalizing i with
  | nil =>
      rw [findFrom] at h
      split at h
      · rename_i hnil
        cases h
        exact ⟨0, rfl, by simp [hnil], by simp⟩
      · cases h
  | cons c text ih =>
      rw [findFrom] at h
      split at h
      · rename_i hpre
        cases h
        exact ⟨0, rfl, startsWith_iff.mp hpre, by simp⟩
      · rename_i hpre
        obtain ⟨k, rfl, hk, hfirst⟩ := ih h
        refine ⟨k + 1, by omega, hk, ?_⟩
        intro m hm
        cases m with
        | zero => exact fun hp => hpre (startsWith_iff.mpr hp)
        | succ m => exact hfirst m (by omega)

theorem findFrom_none {needle text : List UInt8} {i : Nat} (h : findFrom needle text i = none) (k : Nat) :
    ¬ needle <+: text.drop k := by
  induction text generalizing i k with
  | nil =>
      rw [findFrom] at h
      split at h
      · cases h
      · rename_i hne
        simpa using hne
  | cons c text ih =>
      rw [findFrom] at h
      split at h
      · cases h
      · rename_i hpre
        cases k with
        | zero => exact fun hp => hpre (startsWith_iff.mpr hp)
        | succ k => exact ih h k

theorem find_some {str needle : List UInt8} {pos next : Nat} (h : find str needle pos = some next) :
    pos ≤ next ∧ needle <+: str.drop next ∧ ∀ m, pos ≤ m → m < next → ¬ needle <+: str.drop m := by
  unfold find at h
  split at h
  · obtain ⟨k, rfl, hk, hfirst⟩ := findFrom_some h
    rw [List.drop_drop] at hk
    refine ⟨by omega, hk, ?_⟩
    intro m hpos hm
    have hf := hfirst (m - pos) (by omega)
    rwa [List.drop_drop, Nat.add_sub_cancel' hpos] at hf
  · cases h

theorem find_bound {str needle : List UInt8} {pos next : Nat} (h : find str needle pos = some next)
    (hne : needle ≠ []) : next + needle.length ≤ str.length := by
  obtain ⟨-, hpre, -⟩ := find_some h
  have hle := hpre.length_le
  have hpos := List.length_pos_of_ne_nil hne
  rw [List.length_drop] at hle
  omega

/-- The loop of split_string, from last on. An empty delimiter would never leave it. -/
def splitLoop (str delimiter : List UInt8) (hne : delimiter ≠ []) (last : Nat) : List (List UInt8) :=
  match h : find str delimiter last with
  | some next =>
      have := find_bound h hne
      have := (find_some h).1
      have := List.length_pos_of_ne_nil hne
      (str.drop last).take (next - last) :: splitLoop str delimiter hne (next + delimiter.length)
  | none => [str.drop last]
termination_by str.length - last

def splitString (str delimiter : List UInt8) (hne : delimiter ≠ []) : List (List UInt8) :=
  splitLoop str delimiter hne 0

theorem find_cut {str needle : List UInt8} {last next : Nat} (h : find str needle last = some next) :
    str.drop last = (str.drop last).take (next - last) ++ (needle ++ str.drop (next + needle.length)) := by
  obtain ⟨hle, ⟨rest, hrest⟩, -⟩ := find_some h
  have hnext : str.drop (next + needle.length) = rest := by
    rw [← List.drop_drop, ← hrest, List.drop_left]
  rw [hnext, hrest, ← Nat.add_sub_cancel' hle, Nat.add_sub_cancel_left, ← List.drop_drop, List.take_append_drop]

theorem find_byte {str : List UInt8} {c : UInt8} {last next : Nat} (h : find str [c] last = some next) :
    str.drop last = (str.drop last).take (next - last) ++ c :: str.drop (next + 1) ∧
      c ∉ (str.drop last).take (next - last) := by
  obtain ⟨hle, -, hfirst⟩ := find_some h
  refine ⟨find_cut h, ?_⟩
  intro hmem
  obtain ⟨k, hk, hget⟩ := List.mem_iff_getElem.mp hmem
  rw [List.length_take, List.length_drop] at hk
  rw [List.getElem_take, List.getElem_drop] at hget
  apply hfirst (last + k) (by omega) (by omega)
  rw [List.drop_eq_getElem_cons (by omega), hget]
  exact ⟨_, rfl⟩

theorem find_byte_none {str : List UInt8} {c : UInt8} {last : Nat} (h : find str [c] last = none)
    (hlast : last ≤ str.length) : c ∉ str.drop last := by
  intro hmem
  obtain ⟨before, after, hsplit⟩ := List.append_of_mem hmem
  rw [find, if_pos hlast] at h
  apply findFrom_none h before.length
  rw [hsplit, List.drop_left]
  exact ⟨after, rfl⟩

theorem splitLoop_cut (str delimiter : List UInt8) (hne : delimiter ≠ []) (last : Nat) (hlast : last ≤ str.length) :
    Cut delimiter (str.drop last) (splitLoop str delimiter hne last) := by
  fun_induction splitLoop str delimiter hne last with
  | case1 last next h hbound hle hpos ih =>
      obtain ⟨-, -, hfirst⟩ := find_some h
      apply Cut.next (find_cut h) _ (ih hbound)
      intro m hm
      rw [List.length_take, List.length_drop] at hm
      rw [List.drop_drop]
      exact hfirst (last + m) (by omega) (by omega)
  | case2 last h =>
      apply Cut.last
      rintro ⟨before, after, hsplit⟩
      rw [find, if_pos hlast] at h
      apply findFrom_none h before.length
      rw [← hsplit, List.append_assoc, List.drop_left]
      exact List.prefix_append _ _

theorem splitString_cut (str delimiter : List UInt8) (hne : delimiter ≠ []) :
    Cut delimiter str (splitString str delimiter hne) := splitLoop_cut str delimiter hne 0 (Nat.zero_le _)

/-- Splitting undoes joining: the pieces are what stands between the delimiters, each delimiter that is
met from left to right parts two of them, and no pass of the loop is made without a delimiter of its own. -/
theorem splitString_undoes_join (str delimiter : List UInt8) (hne : delimiter ≠ []) :
    delimiter.intercalate (splitString str delimiter hne) = str ∧
      (∀ piece ∈ splitString str delimiter hne, ¬ delimiter <:+: piece) ∧
      (splitString str delimiter hne).length = occurrences delimiter str + 1 ∧
      ((splitString str delimiter hne).length - 1) * delimiter.length ≤ str.length :=
  have hcut := splitString_cut str delimiter hne
  ⟨hcut.intercalate, hcut.not_infix hne, hcut.length_eq hne, hcut.length_mul_le⟩

/-- A delimiter that overlaps itself is met once in three of its letters. -/
theorem overlapping_split :
    ascii "aa" ≠ [] ∧ (splitString (ascii "aaa") (ascii "aa") (by decide)).length = 2 :=
  ⟨by decide, (splitString_undoes_join (ascii "aaa") (ascii "aa") (by decide)).2.2.1⟩

theorem splitString_length (str : List UInt8) (c : UInt8) :
    (splitString str [c] (List.cons_ne_nil c [])).length = str.count c + 1 := by
  rw [(splitString_cut str [c] (List.cons_ne_nil c [])).length_eq (List.cons_ne_nil c []), occurrences_singleton]

theorem splitString_eq_splitOn (str : List UInt8) (c : UInt8) :
    splitString str [c] (List.cons_ne_nil c []) = str.splitOn c := by
  have hcut := splitString_cut str [c] (List.cons_ne_nil c [])
  have hpieces := hcut.not_infix (List.cons_ne_nil c [])
  have hsplit := List.splitOn_intercalate c (fun piece hpiece => (List.singleton_infix_iff c piece).not.mp (hpieces piece hpiece))
    hcut.ne_nil
  rw [hcut.intercalate] at hsplit
  exact hsplit.symm

end Cwsd.StringUtil
