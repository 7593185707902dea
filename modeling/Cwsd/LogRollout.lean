import Mathlib.Data.List.Induction
import Mathlib.Logic.Function.Basic

namespace Cwsd.LogRollout

abbrev FileName : Type := List Char

abbrev Directory (α : Type) : Type := FileName → Option α

variable {α : Type}

/-- A file that is not there is not renamed; one that has the new name is lost. -/
def rename (older newer : FileName) (d : Directory α) : Directory α :=
  match d older with
  | none => d
  | some content => Function.update (Function.update d older none) newer (some content)

def numbered (path : FileName) (i : Nat) : FileName :=
  let name := path ++ ['.', '?']
  name.set (name.length - 1) (Char.ofNat ('0'.toNat + i))

/-- The renames from i to i - 1 on, down to the one of the file zero. -/
def renameOld (path : FileName) : Nat → Directory α → Directory α
  | 0, d => d
  | i + 1, d => renameOld path i (rename (numbered path i) (numbered path (i + 1)) d)

def preRolloutCallback (path : FileName) (d : Directory α) : Directory α :=
  rename path (numbered path 1) (renameOld path 9 d)

/-- One log after the other is rolled out, each what was written since the one before. -/
def rollOut (path : FileName) (d : Directory α) (log : α) : Directory α :=
  preRolloutCallback path (Function.update d path (some log))

variable {path : FileName} {d : Directory α}

theorem numbered_eq (path : FileName) (i : Nat) :
    numbered path i = path ++ ['.', Char.ofNat ('0'.toNat + i)] := by
  simp [numbered]

theorem numbered_ne_path (i : Nat) : numbered path i ≠ path := by
  intro h
  have hlen := congrArg List.length h
  rw [numbered_eq, List.length_append, List.length_cons, List.length_singleton] at hlen
  omega

theorem numbered_inj {i j : Nat} (hi : i ≤ 9) (hj : j ≤ 9) (h : numbered path i = numbered path j) : i = j := by
  rw [numbered_eq, numbered_eq, List.append_cancel_left_eq, List.cons.injEq, List.cons.injEq] at h
  have hdigit : ∀ i ≤ 9, ∀ j ≤ 9, Char.ofNat ('0'.toNat + i) = Char.ofNat ('0'.toNat + j) → i = j := by decide
  exact hdigit i hi j hj h.2.1

theorem rename_of_ne {older newer name : FileName} (h : name ≠ older) (h' : name ≠ newer) :
    rename older newer d name = d name := by
  unfold rename
  cases d older with
  | none => rfl
  | some content => simp only [Function.update_of_ne h', Function.update_of_ne h]

theorem rename_older {older newer : FileName} (h : older ≠ newer) : rename older newer d older = none := by
  unfold rename
  cases hd : d older with
  | none => exact hd
  | some content => simp only [Function.update_of_ne h, Function.update_self]

theorem rename_newer {older newer : FileName} : rename older newer d newer = (d older).or (d newer) := by
  unfold rename
  cases d older with
  | none => rfl
  | some content => exact Function.update_self newer _ _

theorem renameOld_of_ne {name : FileName} {n : Nat} (h : ∀ i ≤ n, name ≠ numbered path i) :
    renameOld path n d name = d name := by
  induction n generalizing d with
  | zero => rfl
  | succ n ih =>
      rw [renameOld, ih fun i hi => h i (Nat.le_succ_of_le hi)]
      exact rename_of_ne (h n (Nat.le_succ n)) (h (n + 1) (Nat.le_refl _))

theorem numbered_ne {i j : Nat} (hi : i ≤ 9) (hj : j ≤ 9) (h : i ≠ j) : numbered path i ≠ numbered path j :=
  fun heq => h (numbered_inj hi hj heq)

/-- The loop moves every old file up by one. The last one is lost where there is one before it. -/
theorem renameOld_numbered {n : Nat} (hn : n ≤ 9) {k : Nat} (hk : 0 < k) (hle : k ≤ n) :
    renameOld path n d (numbered path k) =
      if k < n then d (numbered path (k - 1)) else (d (numbered path (n - 1))).or (d (numbered path n)) := by
  induction n generalizing d with
  | zero => omega
  | succ n ih =>
      rw [renameOld]
      by_cases hlast : k = n + 1
      · subst hlast
        rw [renameOld_of_ne fun i hi => numbered_ne hn (by omega) (by omega), if_neg (Nat.lt_irrefl _)]
        exact rename_newer
      · have hvacated : rename (numbered path n) (numbered path (n + 1)) d (numbered path n) = none :=
          rename_older (numbered_ne (by omega) hn (by omega))
        have hkept (i : Nat) (hi : i < n) :
            rename (numbered path n) (numbered path (n + 1)) d (numbered path i) = d (numbered path i) :=
          rename_of_ne (numbered_ne (by omega) (by omega) (by omega)) (numbered_ne (by omega) hn (by omega))
        rw [ih (by omega) (by omega), if_pos (by omega : k < n + 1), hvacated, Option.or_none]
        split
        · exact hkept (k - 1) (by omega)
        · rw [hkept (n - 1) (by omega), show k = n by omega]

theorem preRolloutCallback_numbered {log : α} (hlog : d path = some log) {k : Nat} (hk : 0 < k) (hle : k ≤ 9) :
    preRolloutCallback path d (numbered path k) =
      if k = 1 then some log
      else if k < 9 then d (numbered path (k - 1))
      else (d (numbered path 8)).or (d (numbered path 9)) := by
  rw [preRolloutCallback]
  by_cases hone : k = 1
  · rw [hone, rename_newer, renameOld_of_ne fun i _ => (numbered_ne_path i).symm, hlog, if_pos rfl]
    rfl
  · rw [rename_of_ne (numbered_ne_path k) (numbered_ne hle (by omega) hone), if_neg hone]
    exact renameOld_numbered (Nat.le_refl 9) hk hle

theorem preRolloutCallback_of_ne {name : FileName} (hpath : name ≠ path) (h : ∀ i ≤ 9, name ≠ numbered path i) :
    preRolloutCallback path d name = d name := by
  rw [preRolloutCallback, rename_of_ne hpath (h 1 (by decide)), renameOld_of_ne h]

theorem rollOut_numbered (log : α) {k : Nat} (hk : 0 < k) (hle : k ≤ 9) :
    rollOut path d log (numbered path k) =
      if k = 1 then some log
      else if k < 9 then d (numbered path (k - 1))
      else (d (numbered path 8)).or (d (numbered path 9)) := by
  have hold (i : Nat) : Function.update d path (some log) (numbered path i) = d (numbered path i) :=
    Function.update_of_ne (numbered_ne_path i) _ _
  rw [rollOut, preRolloutCallback_numbered (Function.update_self path _ d) hk hle, hold, hold, hold]

/-- After any number of logs were rolled out, the numbered files are the latest of them, the latest first, and
beyond them what was there before, and no file outside the names of the rotation was touched. -/
theorem rolled_out (path : FileName) (d : Directory α) (logs : List α) :
    (∀ k, 0 < k → k ≤ 9 → k ≤ logs.length →
      logs.foldl (rollOut path) d (numbered path k) = logs.reverse[k - 1]?) ∧
    (∀ k, logs.length < k → k < 9 →
      logs.foldl (rollOut path) d (numbered path k) = d (numbered path (k - logs.length))) ∧
    ∀ name, name ≠ path → (∀ i ≤ 9, name ≠ numbered path i) → logs.foldl (rollOut path) d name = d name := by
  induction logs using List.reverseRecOn with
  | nil =>
      refine ⟨fun k hk _ hle => absurd hle (Nat.not_le_of_gt hk), fun _ _ _ => rfl, fun _ _ _ => rfl⟩
  | append_singleton logs log ih =>
      obtain ⟨hlatest, hbefore, hother⟩ := ih
      simp only [List.foldl_append, List.foldl_cons, List.foldl_nil, List.length_append, List.length_singleton,
        List.reverse_append, List.reverse_singleton, List.singleton_append]
      refine ⟨?_, ?_, ?_⟩
      · intro k hk hle hn
        rw [rollOut_numbered log hk hle]
        by_cases hone : k = 1
        · rw [if_pos hone, hone]
          rfl
        · have hcons (i : Nat) (hi : 1 < i) : (log :: logs.reverse)[i - 1]? = logs.reverse[i - 1 - 1]? := by
            rw [show i - 1 = i - 1 - 1 + 1 by omega]
            rfl
          rw [if_neg hone, hcons k (by omega)]
          split
          · exact hlatest (k - 1) (by omega) (by omega) (by omega)
          · obtain rfl : k = 9 := by omega
            have hlen : 7 < logs.reverse.length := by
              rw [List.length_reverse]
              omega
            rw [hlatest 8 (by decide) (by decide) (by omega), List.getElem?_eq_getElem hlen]
            rfl
      · intro k hk hlt
        rw [rollOut_numbered log (by omega) (by omega), if_neg (by omega), if_pos hlt,
          hbefore _ (by omega) (by omega),
          Nat.sub_right_comm, Nat.sub_sub]
      · intro name hpath hnumbered
        rw [rollOut, preRolloutCallback_of_ne hpath hnumbered, Function.update_of_ne hpath,
          hother name hpath hnumbered]

theorem tenth_rolled_out :
    [0, 1, 2, 3, 4, 5, 6, 7, 8, 9].foldl (rollOut ['l']) (fun _ => none) (numbered ['l'] 9) = some 1 :=
  (rolled_out ['l'] (fun _ => none) [0, 1, 2, 3, 4, 5, 6, 7, 8, 9]).1 9 (by decide) (by decide) (by decide)

end Cwsd.LogRollout
