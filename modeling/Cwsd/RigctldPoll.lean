import Cwsd.RigctldClients
import Cwsd.RigctldWork

namespace Cwsd.RigctldPoll

open Runs Effects RigctldServer RigctldSafety RigctldClients RigctldWork

/-- The array that poll is called with is the client table, behind the listener and in the order of
the map. -/
structure Mirror (w : Work) : Prop where
  pfdNr : w.pfdNr = w.clients.size + 1
  entries : w.pfds.length = w.clients.size + 1
  fds : w.pfds.map PollFd.fd = w.serverFd :: w.clients.keys

/-- Every client is in the table under its own descriptor. -/
def Keyed (s : Server) : Prop := ∀ key ∈ s.clients, (s.client key).fd = key

theorem keys_eq {m m' : Std.ExtTreeMap Int Client} (h : ∀ k, k ∈ m' ↔ k ∈ m) : m'.keys = m.keys := by
  have hperm : m'.keys.Perm m.keys := by
    apply (List.perm_ext_iff_of_nodup m'.nodup_keys m.nodup_keys).mpr
    intro k
    rw [Std.ExtTreeMap.mem_keys, Std.ExtTreeMap.mem_keys, h k]
  have hlt (t : Std.ExtTreeMap Int Client) : t.keys.Pairwise (· < ·) :=
    t.ordered_keys.imp fun h => Std.compare_eq_lt.mp h
  exact hperm.eq_of_pairwise (fun a b _ _ hab hba => absurd hba (lt_asymm hab)) (hlt m') (hlt m)

theorem toList_map_fd {s : Server} (h : Keyed s) :
    s.clients.toList.map (fun c => c.2.fd) = s.clients.keys := by
  rw [← Std.ExtTreeMap.map_fst_toList_eq_keys]
  apply List.map_congr_left
  rintro ⟨key, c⟩ hmem
  have hget := Std.ExtTreeMap.mem_toList_iff_getElem?_eq_some.mp hmem
  have hkey : key ∈ s.clients := by
    rw [Std.ExtTreeMap.mem_iff_isSome_getElem?, hget]
    rfl
  have hfd := h key hkey
  rwa [Server.client, hget, Option.getD_some] at hfd

theorem mirror_updatePollDescriptors {w : Work} (h : Keyed w.server) : Mirror (updatePollDescriptors w) := by
  refine ⟨rfl, ?_, ?_⟩
  · rw [updatePollDescriptors, List.length_cons, List.length_map, Std.ExtTreeMap.length_toList]
    rfl
  · rw [updatePollDescriptors, List.map_cons, List.map_map]
    exact congrArg _ (toList_map_fd h)

theorem keyed_serves {key : Int} {s s' : Server} (h : Keyed s) (hs : Serves key s s') : Keyed s' := by
  intro k hk
  have hk' := (hs.members k).mp hk
  by_cases hne : k = key
  · subst hne
    exact hs.clientFd.trans (h k hk')
  · rw [hs.others k hne]
    exact h k hk'

theorem mem_removeClients (fds : List Int) (w : Work) (k : Int) :
    k ∈ (removeClients fds w).clients ↔ k ∈ w.clients ∧ k ∉ fds := by
  have hfold (m : Std.ExtTreeMap Int Client) :
      k ∈ fds.foldl (fun clients fd => clients.erase fd) m ↔ k ∈ m ∧ k ∉ fds := by
    induction fds generalizing m with
    | nil => simp
    | cons fd fds ih =>
        rw [List.foldl_cons, ih, Std.ExtTreeMap.mem_erase, List.mem_cons, not_or]
        simp only [ne_eq, Std.LawfulEqCmp.compare_eq_iff_eq]
        tauto
  exact hfold w.clients

theorem client_removeClients {fds : List Int} {w : Work} {k : Int} (hk : k ∉ fds) :
    (removeClients fds w).server.client k = w.server.client k := by
  have hfold (m : Std.ExtTreeMap Int Client) :
      (fds.foldl (fun clients fd => clients.erase fd) m)[k]? = m[k]? := by
    induction fds generalizing m with
    | nil => rfl
    | cons fd fds ih =>
        rw [List.mem_cons, not_or] at hk
        rw [List.foldl_cons, ih hk.2, Std.ExtTreeMap.getElem?_erase, if_neg]
        rw [Std.LawfulEqCmp.compare_eq_iff_eq]
        exact fun h => hk.1 h.symm
  exact congrArg (fun c => c.getD {}) (hfold w.clients)

theorem keyed_removeClients {fds : List Int} {w : Work} (h : Keyed w.server) :
    Keyed (removeClients fds w).server := by
  intro k hk
  obtain ⟨hmem, hout⟩ := (mem_removeClients fds w k).mp hk
  rw [client_removeClients hout]
  exact h k hmem

theorem acceptClient_frame (fd : Int) (w : Work) :
    (acceptClient fd w).pfds = w.pfds ∧ (acceptClient fd w).pfdNr = w.pfdNr ∧
      (acceptClient fd w).server.rigDisconnected = w.server.rigDisconnected := by
  rw [acceptClient]
  split <;> exact ⟨rfl, rfl, rfl⟩

theorem mem_acceptClient (fd : Int) (w : Work) (k : Int) :
    k ∈ (acceptClient fd w).clients ↔ k ∈ w.clients ∨ (0 ≤ fd ∧ k = fd) := by
  rw [acceptClient]
  split
  · constructor
    · exact .inl
    · rintro (hk | ⟨hpos, -⟩)
      · exact hk
      · omega
  · simp only [Work.clients, Std.ExtTreeMap.mem_insertIfNew, Std.LawfulEqCmp.compare_eq_iff_eq]
    constructor
    · rintro (rfl | hk)
      · exact .inr ⟨by omega, rfl⟩
      · exact .inl hk
    · rintro (hk | ⟨-, rfl⟩)
      · exact .inr hk
      · exact .inl rfl

theorem client_acceptClient_of_mem (fd : Int) {w : Work} {k : Int} (hk : k ∈ w.clients) :
    (acceptClient fd w).server.client k = w.server.client k := by
  rw [acceptClient]
  split
  · rfl
  · have hold : ¬ (compare fd k = .eq ∧ fd ∉ w.clients) := by
      rw [Std.LawfulEqCmp.compare_eq_iff_eq]
      rintro ⟨rfl, hnew⟩
      exact hnew hk
    simp only [Server.client, Std.ExtTreeMap.getElem?_insertIfNew, if_neg hold]
    rfl

theorem client_acceptClient_self {fd : Int} {w : Work} (hpos : 0 ≤ fd) (hnew : fd ∉ w.clients) :
    (acceptClient fd w).server.client fd = ⟨fd, [], []⟩ := by
  have hfresh : compare fd fd = .eq ∧ fd ∉ w.clients := ⟨Std.LawfulEqCmp.compare_eq_iff_eq.mpr rfl, hnew⟩
  rw [acceptClient, if_neg (by omega)]
  simp only [Server.client, Std.ExtTreeMap.getElem?_insertIfNew, if_pos hfresh]
  rfl

theorem keyed_acceptClient {fd : Int} {w : Work} (h : Keyed w.server) : Keyed (acceptClient fd w).server := by
  intro k hk
  by_cases hold : k ∈ w.clients
  · rw [client_acceptClient_of_mem fd hold]
    exact h k hold
  · obtain hmem | ⟨hpos, rfl⟩ := (mem_acceptClient fd w k).mp hk
    · exact absurd hmem hold
    · rw [client_acceptClient_self hpos hold]

theorem setFlags_fds {pfds flags : List PollFd} {clients : List Client}
    (h : setFlags pfds clients = some flags) :
    flags.map PollFd.fd = pfds.map PollFd.fd := by
  induction pfds generalizing clients flags with
  | nil =>
      cases clients with
      | nil =>
          cases h
          rfl
      | cons c clients => cases h
  | cons p pfds ih =>
      cases clients with
      | nil =>
          cases h
          rfl
      | cons c clients =>
          obtain ⟨rest, hrest, hflags⟩ := Option.map_eq_some_iff.mp h
          cases hflags
          rw [List.map_cons, List.map_cons, ih hrest]

theorem setFlags_none {pfds : List PollFd} {clients : List Client} (h : pfds.length < clients.length) :
    setFlags pfds clients = none := by
  induction pfds generalizing clients with
  | nil =>
      cases clients with
      | nil => simp at h
      | cons c clients => rfl
  | cons p pfds ih =>
      cases clients with
      | nil => simp at h
      | cons c clients =>
          rw [setFlags, ih (by simpa using h)]
          rfl

theorem setFlags_isSome {pfds : List PollFd} {clients : List Client} (h : clients.length ≤ pfds.length) :
    (setFlags pfds clients).isSome := by
  induction pfds generalizing clients with
  | nil =>
      cases clients with
      | nil => rfl
      | cons c clients => simp at h
  | cons p pfds ih =>
      cases clients with
      | nil => rfl
      | cons c clients =>
          rw [setFlags, Option.isSome_map]
          exact ih (by simpa using h)

/-- Neither the array nor the keys of the table have changed. -/
structure SameArray (w w' : Work) : Prop where
  serverFd : w'.serverFd = w.serverFd
  pfds : w'.pfds = w.pfds
  pfdNr : w'.pfdNr = w.pfdNr
  members : ∀ k, k ∈ w'.clients ↔ k ∈ w.clients

theorem sameArray_pc (w : Work) (pc : Pc) : SameArray w { w with pc } := ⟨rfl, rfl, rfl, fun _ => Iff.rfl⟩

theorem sameArray_serves {w : Work} {key : Int} {server : Server} (hs : Serves key w.server server) (pc : Pc) :
    SameArray w { w with server, pc } := ⟨rfl, rfl, rfl, hs.members⟩

theorem SameArray.size {w w' : Work} (h : SameArray w w') : w'.clients.size = w.clients.size := by
  rw [← Std.ExtTreeMap.length_keys, keys_eq h.members, Std.ExtTreeMap.length_keys]

theorem SameArray.short {w w' : Work} (h : SameArray w w') (hshort : w.pfds.tail.length < w.clients.size) :
    w'.pfds.tail.length < w'.clients.size := by
  rw [h.pfds, h.size]
  exact hshort

theorem Mirror.congr {w w' : Work} (h : Mirror w) (hsame : SameArray w w') : Mirror w' := by
  refine ⟨?_, ?_, ?_⟩
  · rw [hsame.pfdNr, hsame.size, h.pfdNr]
  · rw [hsame.pfds, hsame.size, h.entries]
  · rw [hsame.pfds, hsame.serverFd, keys_eq hsame.members, h.fds]

theorem mirror_updatePollFlags {w w' : Work} (h : Mirror w) (hw' : updatePollFlags w = some w') :
    Mirror w' := by
  obtain ⟨flags, hflags, rfl⟩ := Option.map_eq_some_iff.mp hw'
  have hfds : (w.pfds.take 1 ++ flags).map PollFd.fd = w.pfds.map PollFd.fd := by
    rw [List.map_append, setFlags_fds hflags, ← List.map_append, ← List.drop_one, List.take_append_drop]
  refine ⟨h.pfdNr, ?_, hfds.trans h.fds⟩
  have hlen := congrArg List.length hfds
  rw [List.length_map, List.length_map] at hlen
  exact hlen.trans h.entries

/-- While the loop runs over the array, its clients are all in the table, which has at most the one
more that was accepted. -/
structure Scanned (w : Work) (fdToAdd : Int) : Prop where
  pfdNr : w.pfdNr = w.pfds.length
  nodup : (w.pfds.tail.map PollFd.fd).Nodup
  present : ∀ p ∈ w.pfds.tail, p.fd ∈ w.clients
  same : fdToAdd < 0 → Mirror w
  added : 0 ≤ fdToAdd → fdToAdd ∈ w.clients ∧ fdToAdd ∉ w.pfds.tail.map PollFd.fd

theorem Mirror.tail_fds {w : Work} (h : Mirror w) : w.pfds.tail.map PollFd.fd = w.clients.keys := by
  rw [List.map_tail, h.fds, List.tail_cons]

theorem Mirror.scanned {w : Work} (h : Mirror w) {fdToAdd : Int} (hneg : fdToAdd < 0) : Scanned w fdToAdd := by
  refine ⟨h.pfdNr.trans h.entries.symm, ?_, ?_, fun _ => h, fun hpos => by omega⟩
  · rw [h.tail_fds]
    exact Std.ExtTreeMap.nodup_keys
  · intro p hp
    rw [← Std.ExtTreeMap.mem_keys, ← h.tail_fds]
    exact List.mem_map_of_mem hp

theorem Scanned.congr {w w' : Work} {fdToAdd : Int} (h : Scanned w fdToAdd) (hsame : SameArray w w') :
    Scanned w' fdToAdd := by
  refine ⟨?_, ?_, ?_, fun hneg => (h.same hneg).congr hsame, ?_⟩
  · rw [hsame.pfdNr, hsame.pfds, h.pfdNr]
  · rw [hsame.pfds]
    exact h.nodup
  · intro p hp
    rw [hsame.pfds] at hp
    exact (hsame.members p.fd).mpr (h.present p hp)
  · intro hpos
    rw [hsame.members, hsame.pfds]
    exact h.added hpos

theorem Scanned.accept {w : Work} {fdToAdd : Int} (h : Scanned w fdToAdd) (hneg : fdToAdd < 0) {fd : Int}
    (hfd : fd < 0 ∨ Unused w fd) : Scanned (acceptClient fd w) fd := by
  obtain ⟨hpfds, hnr, -⟩ := acceptClient_frame fd w
  refine ⟨?_, ?_, ?_, ?_, ?_⟩
  · rw [hpfds, hnr, h.pfdNr]
  · rw [hpfds]
    exact h.nodup
  · intro p hp
    rw [hpfds] at hp
    exact (mem_acceptClient fd w p.fd).mpr (.inl (h.present p hp))
  · intro hfail
    rw [acceptClient, if_pos hfail]
    exact h.same hneg
  · intro hpos
    have hunused := hfd.resolve_left (by omega)
    refine ⟨(mem_acceptClient fd w fd).mpr (.inr ⟨hpos, rfl⟩), ?_⟩
    rw [hpfds, (h.same hneg).tail_fds, Std.ExtTreeMap.mem_keys]
    exact hunused.1

/-- The array is too short for the table where a client was accepted and the array was not built again. -/
theorem Scanned.short {w : Work} {fdToAdd : Int} (h : Scanned w fdToAdd) (hpos : 0 ≤ fdToAdd) :
    w.pfds.tail.length < w.clients.size := by
  obtain ⟨hmem, hnew⟩ := h.added hpos
  have hsub : fdToAdd :: w.pfds.tail.map PollFd.fd ⊆ w.clients.keys := by
    intro k hk
    rw [Std.ExtTreeMap.mem_keys]
    rcases List.mem_cons.mp hk with rfl | hk
    · exact hmem
    · obtain ⟨p, hp, rfl⟩ := List.mem_map.mp hk
      exact h.present p hp
  have hlen := ((List.nodup_cons.mpr ⟨hnew, h.nodup⟩).subperm hsub).length_le
  rw [List.length_cons, List.length_map, Std.ExtTreeMap.length_keys] at hlen
  exact hlen

theorem mem_clients_of_entry {w : Work} {fdToAdd : Int} {i : Nat} {p : PollFd} (hentry : w.pfds[i]? = some p)
    (h : Scanned w fdToAdd) (hne : i ≠ 0) : p.fd ∈ w.clients := by
  obtain ⟨j, rfl⟩ := Nat.exists_eq_succ_of_ne_zero hne
  have htail : w.pfds.tail[j]? = some p := by
    rw [List.getElem?_tail]
    exact hentry
  exact h.present p (List.mem_of_getElem? htail)

/-- What holds of the array at each place of the loop. -/
def Placed (w : Work) : Prop :=
  match w.pc with
  | .scanIn scan => Scanned w scan.fdToAdd ∧ (∀ r ∈ scan.revents.head?, r.pollOut = false) ∧
      (scan.index = 0 → scan.fdToAdd < 0)
  | .scanOut scan => Scanned w scan.fdToAdd ∧ ∀ r ∈ scan.revents.head?, r.pollOut = false
  | .sweep fdToAdd _ => Scanned w fdToAdd
  | .flags => Mirror w ∨ w.pfds.tail.length < w.clients.size
  | _ => Mirror w

/-- An iteration in which accept has answered with the descriptor zero removes a client. -/
def Rebuilt (w : Work) (_ : Action) : Prop :=
  match w.pc with
  | .sweep fdToAdd fdsToRemove => fdToAdd ≠ 0 ∨ fdsToRemove ≠ []
  | _ => True

instance (w : Work) (a : Action) : Decidable (Rebuilt w a) := by
  unfold Rebuilt
  split <;> infer_instance

theorem Placed.congr {w w' : Work} (h : Placed w) (hsame : SameArray w w') (hpc : w'.pc = w.pc) :
    Placed w' := by
  unfold Placed at h ⊢
  rw [hpc]
  cases hw : w.pc with
  | scanIn scan =>
      rw [hw] at h
      exact ⟨h.1.congr hsame, h.2⟩
  | scanOut scan =>
      rw [hw] at h
      exact ⟨h.1.congr hsame, h.2⟩
  | sweep fdToAdd fdsToRemove =>
      rw [hw] at h
      exact h.congr hsame
  | flags =>
      rw [hw] at h
      exact h.imp (fun hmirror => hmirror.congr hsame) fun hshort => hsame.short hshort
  | _ =>
      rw [hw] at h
      exact h.congr hsame

theorem sweep_server (w : Work) (fdToAdd : Int) (fdsToRemove : List Int) :
    (sweep w fdToAdd fdsToRemove).server = (removeClients fdsToRemove w).server := by
  rw [sweep]
  split <;> rfl

theorem sweep_mirror {w : Work} {fdToAdd : Int} {fdsToRemove : List Int} (hkeyed : Keyed w.server)
    (h : Scanned w fdToAdd) (hok : fdToAdd ≠ 0 ∨ fdsToRemove ≠ []) : Mirror (sweep w fdToAdd fdsToRemove) := by
  rw [sweep]
  split
  · exact (mirror_updatePollDescriptors (keyed_removeClients hkeyed)).congr (sameArray_pc _ _)
  · rename_i hno
    simp only [not_or, not_lt, ne_eq, not_not] at hno
    obtain ⟨hle, rfl⟩ := hno
    have hneg : fdToAdd < 0 := by
      rcases hok with hne | hne
      · omega
      · exact absurd rfl hne
    exact (h.same hneg).congr ⟨rfl, rfl, rfl, fun _ => Iff.rfl⟩

theorem sweep_placed {w : Work} {fdToAdd : Int} {fdsToRemove : List Int} (hkeyed : Keyed w.server)
    (h : Scanned w fdToAdd) : Placed (sweep w fdToAdd fdsToRemove) := by
  by_cases hok : fdToAdd ≠ 0 ∨ fdsToRemove ≠ []
  · exact .inl (sweep_mirror hkeyed h hok)
  · simp only [not_or, ne_eq, not_not] at hok
    obtain ⟨rfl, rfl⟩ := hok
    exact .inr (h.short (Int.le_refl 0))

theorem closeRig_mirror {w : Work} (h : Mirror w) : Mirror (closeRig w) := by
  rw [closeRig]
  split
  · exact h
  · have hempty : Keyed { w.server with clients := ∅ } := by
      intro k hk
      exact absurd hk Std.ExtTreeMap.not_mem_empty
    exact (mirror_updatePollDescriptors (w := { w with server := { w.server with clients := ∅ } }) hempty).congr
      ⟨rfl, rfl, rfl, fun _ => Iff.rfl⟩

theorem closeRig_keyed {w : Work} (h : Keyed w.server) : Keyed (closeRig w).server := by
  rw [closeRig]
  split
  · exact h
  · intro k hk
    exact absurd hk Std.ExtTreeMap.not_mem_empty

theorem clientAt_eq {w : Work} {fd : Int} (h : fd ∈ w.clients) : clientAt fd w = w := by
  have hmap : w.server.clients.insert fd (w.server.client fd) = w.server.clients := by
    apply Std.ExtTreeMap.ext_getElem?
    intro k
    rw [Std.ExtTreeMap.getElem?_insert]
    split
    · rename_i hk
      rw [Std.LawfulEqCmp.compare_eq_iff_eq] at hk
      subst hk
      obtain ⟨c, hc⟩ := Option.isSome_iff_exists.mp (Std.ExtTreeMap.mem_iff_isSome_getElem?.mp h)
      have hc' : w.server.clients[fd]? = some c := hc
      rw [Server.client, hc', Option.getD_some]
    · rfl
  rw [clientAt, Server.updateClient, id, hmap]

theorem readable_client {w : Work} {scan : Scan} {p : PollFd} {r : Revents} (h : Placed w)
    (hpc : w.pc = .scanIn scan) (hat : At w scan p r) (hne : scan.index ≠ 0) : p.fd ∈ w.clients := by
  rw [Placed, hpc] at h
  exact mem_clients_of_entry hat.entry h.1 hne

theorem writable_client {w : Work} {scan : Scan} {p : PollFd} {r : Revents} (h : Placed w)
    (hpc : w.pc = .scanOut scan) (hat : At w scan p r) (hout : r.pollOut = true) : p.fd ∈ w.clients := by
  rw [Placed, hpc] at h
  have hne : scan.index ≠ 0 := by
    intro hzero
    have hreport := hat.report
    rw [hzero, ← List.head?_eq_getElem?] at hreport
    rw [h.2 r hreport] at hout
    cases hout
  exact mem_clients_of_entry hat.entry h.1 hne

theorem read_serves {env : Environment} {w : Work} {fd : Int} {keep : Bool} {server : Server}
    (hkeyed : Keyed w.server) (hmem : fd ∈ w.clients)
    (hread : readFromClient env fd (clientAt fd w).server = .returned keep server) :
    Serves fd w.server server := by
  rw [clientAt_eq hmem] at hread
  exact (readFromClient_serves hmem (hkeyed fd hmem) hread).1

theorem write_serves {env : Environment} {w : Work} {fd : Int} {keep : Bool} {server : Server}
    (hmem : fd ∈ w.clients) (hwrite : writeFromClient env fd (clientAt fd w).server = .returned keep server) :
    Serves fd w.server server := by
  rw [clientAt_eq hmem] at hwrite
  exact writeFromClient_serves hmem hwrite

theorem placed_step {env : Environment} {w w' : Work} {a : Action} (hkeyed : Keyed w.server) (h : Placed w)
    (hs : Steps env w a w') : Keyed w'.server ∧ Placed w' := by
  cases hs with
  | disconnect | stop => exact ⟨hkeyed, h.congr ⟨rfl, rfl, rfl, fun _ => Iff.rfl⟩ rfl⟩
  | leave hpc | lost hpc _ | live hpc _ | timeout hpc =>
      rw [Placed, hpc] at h
      exact ⟨hkeyed, h.congr (sameArray_pc w _)⟩
  | close hpc =>
      rw [Placed, hpc] at h
      exact ⟨closeRig_keyed hkeyed, (closeRig_mirror h).congr (sameArray_pc _ _)⟩
  | opened hpc result =>
      rw [Placed, hpc] at h
      cases result <;> exact ⟨hkeyed, h.congr ⟨rfl, rfl, rfl, fun _ => Iff.rfl⟩⟩
  | connect hpc | started hpc =>
      rw [Placed, hpc] at h
      exact ⟨hkeyed, h.congr ⟨rfl, rfl, rfl, fun _ => Iff.rfl⟩⟩
  | poll hpc revents hreports =>
      rw [Placed, hpc] at h
      have hneg : (-1 : Int) < 0 := by decide
      exact ⟨hkeyed, (h.scanned hneg).congr (sameArray_pc w _), hreports.2, fun _ => hneg⟩
  | error hpc hat _ =>
      rw [Placed, hpc] at h
      exact ⟨hkeyed, h.1.congr (sameArray_pc w _), h.2.1, nofun⟩
  | accept hpc hat hzero fd hfd =>
      rw [Placed, hpc] at h
      exact ⟨keyed_acceptClient hkeyed, (h.1.accept (h.2.2 hzero) hfd).congr (sameArray_pc _ _), h.2.1⟩
  | @read scan p r keep server hpc hat _ hne _ _ hread =>
      have hserves := read_serves hkeyed (readable_client h hpc hat hne) hread
      rw [Placed, hpc] at h
      refine ⟨keyed_serves hkeyed hserves, ?_⟩
      cases keep <;> exact ⟨h.1.congr (sameArray_serves hserves _), h.2.1⟩
  | noInput hpc hat _ _ =>
      rw [Placed, hpc] at h
      exact ⟨hkeyed, h.1.congr (sameArray_pc w _), h.2.1⟩
  | @write scan p r keep server hpc hat hout hwrite =>
      have hserves := write_serves (writable_client h hpc hat hout) hwrite
      rw [Placed, hpc] at h
      refine ⟨keyed_serves hkeyed hserves, ?_⟩
      cases keep <;> exact ⟨h.1.congr (sameArray_serves hserves _), h.2, nofun⟩
  | noOutput hpc _ _ =>
      rw [Placed, hpc] at h
      exact ⟨hkeyed, h.1.congr (sameArray_pc w _), h.2, nofun⟩
  | scanned hpc hend =>
      rw [Placed, hpc] at h
      exact ⟨hkeyed, h.1.congr (sameArray_pc w _)⟩
  | sweep hpc =>
      rw [Placed, hpc] at h
      refine ⟨?_, sweep_placed hkeyed h⟩
      rw [sweep_server]
      exact keyed_removeClients hkeyed
  | flags hpc hflags =>
      rw [Placed, hpc] at h
      have hmirror : Mirror w := by
        rcases h with hmirror | hshort
        · exact hmirror
        · rw [updatePollFlags, setFlags_none] at hflags
          · cases hflags
          · rw [List.length_map, Std.ExtTreeMap.length_toList]
            exact hshort
      have hserver := hflags
      obtain ⟨flags, -, rfl⟩ := Option.map_eq_some_iff.mp hserver
      exact ⟨hkeyed, (mirror_updatePollFlags hmirror hflags).congr (sameArray_pc _ _)⟩

theorem placed_start (rigModel serverFd : Int) :
    Keyed (start rigModel serverFd).server ∧ Placed (start rigModel serverFd) := by
  have hempty : Keyed (⟨rigModel, true, ∅, []⟩ : Server) := by
    intro k hk
    exact absurd hk Std.ExtTreeMap.not_mem_empty
  exact ⟨hempty, mirror_updatePollDescriptors hempty⟩

/-- What update_poll_flags finds is what the removal of clients has left. -/
theorem flags_of_steps {env : Environment} {w w' : Work} {a : Action} (hs : Steps env w a w')
    (hpc' : w'.pc = .flags) :
    (w.pc = .flags ∧ SameArray w w') ∨
      ∃ fdToAdd fdsToRemove, w.pc = .sweep fdToAdd fdsToRemove ∧ w' = sweep w fdToAdd fdsToRemove := by
  cases hs with
  | disconnect => exact .inl ⟨hpc', rfl, rfl, rfl, fun _ => Iff.rfl⟩
  | stop => exact .inl ⟨hpc', rfl, rfl, rfl, fun _ => Iff.rfl⟩
  | opened hpc result => cases result <;> cases hpc'
  | sweep hpc => exact .inr ⟨_, _, hpc, rfl⟩
  | _ => cases hpc'

theorem mirror_run {env : Environment} {rigModel serverFd : Int} {as : List Action} {w : Work}
    (h : Run (step env) Rebuilt (start rigModel serverFd) as w) :
    (Keyed w.server ∧ Placed w) ∧ (w.pc = .flags → Mirror w) := by
  apply h.invariant fun w => (Keyed w.server ∧ Placed w) ∧ (w.pc = .flags → Mirror w)
  · exact ⟨placed_start rigModel serverFd, nofun⟩
  · rintro w a w' ⟨⟨hkeyed, hplaced⟩, hflags⟩ hok hstep
    have hs := steps_of_step hstep
    refine ⟨placed_step hkeyed hplaced hs, fun hpc' => ?_⟩
    obtain ⟨hpc, hsame⟩ | ⟨fdToAdd, fdsToRemove, hpc, rfl⟩ := flags_of_steps hs hpc'
    · exact (hflags hpc).congr hsame
    · rw [Placed, hpc] at hplaced
      rw [Rebuilt, hpc] at hok
      exact sweep_mirror hkeyed hplaced hok

/-- At every call of poll and of update_poll_flags the array mirrors the table, so that no entry beyond the
array is used, and the subscripts of the table find a client. -/
theorem poll_array_mirrors (env : Environment) (rigModel serverFd : Int) (as : List Action) (w : Work)
    (h : Run (step env) Rebuilt (start rigModel serverFd) as w) :
    ((w.pc = .poll ∨ w.pc = .flags) → Mirror w) ∧
    (∀ scan, (w.pc = .scanIn scan ∨ w.pc = .scanOut scan) → scan.index < w.pfdNr →
      ∃ p, w.pfds[scan.index]? = some p ∧ (0 < scan.index → p.fd ∈ w.clients)) ∧
    (w.pc = .flags → (updatePollFlags w).isSome) := by
  obtain ⟨⟨-, hplaced⟩, hflags⟩ := mirror_run h
  refine ⟨?_, ?_, ?_⟩
  · rintro (hpc | hpc)
    · rwa [Placed, hpc] at hplaced
    · exact hflags hpc
  · intro scan hpc hlt
    have hscanned : Scanned w scan.fdToAdd := by
      obtain hpc | hpc := hpc
      · rw [Placed, hpc] at hplaced
        exact hplaced.1
      · rw [Placed, hpc] at hplaced
        exact hplaced.1
    rw [hscanned.pfdNr] at hlt
    have hentry := List.getElem?_eq_getElem hlt
    exact ⟨w.pfds[scan.index], hentry, fun hpos => mem_clients_of_entry hentry hscanned (Nat.ne_of_gt hpos)⟩
  · intro hpc
    rw [updatePollFlags, Option.isSome_map]
    apply setFlags_isSome
    rw [List.length_map, Std.ExtTreeMap.length_toList, List.length_tail, (hflags hpc).entries]
    omega

def connecting : List Action :=
  [.advance, .advance, .advance, .opened .opened, .advance, .polled [⟨false, true, false⟩], .accepted 4, .advance,
    .advance, .advance, .advance, .advance]

theorem poll_array_connected : ∃ w, w.pc = .poll ∧ w.pfds.map PollFd.fd = [3, 4] ∧ Mirror w := by
  obtain ⟨w, hrun, hview⟩ := run_of_exec_map (step idleRig) Rebuilt (start modelIC7300 3) connecting
    (fun w => (w.pc, w.pfds.map PollFd.fd)) (.poll, [3, 4]) (by decide +kernel)
  simp only [Prod.mk.injEq] at hview
  exact ⟨w, hview.1, hview.2, (poll_array_mirrors idleRig modelIC7300 3 connecting w hrun).1 (.inl hview.1)⟩

/-- The descriptor zero is taken for no descriptor where the array is to be built again, although
accept_client has put it into the table: update_poll_flags then writes beyond the array. -/
theorem descriptor_zero_missed :
    ¬ ∀ (env : Environment) (rigModel serverFd : Int) (as : List Action) (w : Work),
    Run (step env) (fun _ _ => True) (start rigModel serverFd) as w → (w.pc = .poll ∨ w.pc = .flags) →
      Mirror w := by
  intro hall
  obtain ⟨w, hrun, hview⟩ := run_of_exec_map (step idleRig) (fun _ _ => True) (start modelIC7300 3)
    [.advance, .advance, .advance, .opened .opened, .advance, .polled [⟨false, true, false⟩], .accepted 0, .advance,
      .advance, .advance]
    (fun w => (w.pc, w.pfdNr, w.clients.size)) (.flags, 1, 1) (by decide +kernel)
  simp only [Prod.mk.injEq] at hview
  have hmirror := (hall idleRig modelIC7300 3 _ w hrun (.inr hview.1)).pfdNr
  rw [hview.2.1, hview.2.2] at hmirror
  cases hmirror

end Cwsd.RigctldPoll
