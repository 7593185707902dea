import Cwsd.RigctldPoll

namespace Cwsd.RigctldDescriptors

open Runs Effects StringUtil RigctldServer RigctldSafety RigctldReplies RigctldClients RigctldWork RigctldPoll

/-- A call of the worker on descriptors. -/
inductive SocketCall
  | poll (fds : List Int)
  | accept (listener clientFd : Int)
  | recv (fd : Int)
  | write (fd : Int)
  | shutdown (fd : Int)
  | close (fd : Int)
  deriving DecidableEq, Repr

/-- The descriptors that are open after a call, none where the call names one that is not open. What accept
hands out is a descriptor that was not open. -/
def kernel (fds : List Int) : SocketCall → Option (List Int)
  | .poll polled => if ∀ fd ∈ polled, fd ∈ fds then some fds else none
  | .accept listener clientFd =>
      if listener ∈ fds ∧ (clientFd < 0 ∨ clientFd ∉ fds) then
        some (if clientFd < 0 then fds else clientFd :: fds)
      else none
  | .recv fd | .write fd | .shutdown fd => if fd ∈ fds then some fds else none
  | .close fd => if fd ∈ fds then some (fds.erase fd) else none

def socketCall : Call → Option SocketCall
  | .recv fd => some (.recv fd)
  | .write fd _ => some (.write fd)
  | _ => none

def closeClient (client : Client) : List SocketCall := [.shutdown client.fd, .close client.fd]

/-- The closes of the loop over fds_to_remove, which looks each descriptor up in what is left of the table. -/
def closeRemoved : List Int → Std.ExtTreeMap Int Client → List SocketCall
  | [], _ => []
  | fd :: fds, clients => (clients[fd]?).elim [] closeClient ++ closeRemoved fds (clients.erase fd)

/-- The calls on descriptors that work makes itself. -/
def workCalls (w : Work) (a : Action) : List SocketCall :=
  match w.pc, a with
  | .closing, .advance => if w.rig.isSome then w.clients.toList.flatMap fun c => closeClient c.2 else []
  | .poll, .timeout | .poll, .polled _ => [.poll ((w.pfds.take w.pfdNr).map PollFd.fd)]
  | .scanIn _, .accepted clientFd => [.accept w.serverFd clientFd]
  | .sweep _ fdsToRemove, .advance => closeRemoved fdsToRemove w.clients
  | _, _ => []

def clientCalls (w w' : Work) : List SocketCall :=
  (w'.server.calls.drop w.server.calls.length).filterMap socketCall

structure Sockets where
  work : Work
  calls : List SocketCall

def step (env : Environment) (s : Sockets) (a : Action) : Option Sockets :=
  (RigctldWork.step env s.work a).map fun w => ⟨w, s.calls ++ workCalls s.work a ++ clientCalls s.work w⟩

def start (rigModel serverFd : Int) : Sockets := ⟨RigctldWork.start rigModel serverFd, []⟩

/-- What is open are the listener and the clients of the table. -/
structure Open (listener : Int) (clients : Std.ExtTreeMap Int Client) (fds : List Int) : Prop where
  nodup : fds.Nodup
  mem : ∀ fd, fd ∈ fds ↔ fd = listener ∨ fd ∈ clients
  listener : listener ∉ clients

theorem Open.congr {listener : Int} {clients clients' : Std.ExtTreeMap Int Client} {fds : List Int}
    (h : Open listener clients fds) (hsame : ∀ k, k ∈ clients' ↔ k ∈ clients) : Open listener clients' fds := by
  refine ⟨h.nodup, ?_, ?_⟩
  · intro fd
    rw [h.mem, hsame]
  · rw [hsame]
    exact h.listener

theorem kernel_uses {fds : List Int} {calls : List SocketCall} (h : ∀ c ∈ calls, kernel fds c = some fds) :
    calls.foldlM kernel fds = some fds := by
  induction calls with
  | nil => rfl
  | cons c calls ih =>
      rw [List.foldlM_cons, h c List.mem_cons_self]
      exact ih fun c' hc' => h c' (List.mem_cons_of_mem c hc')

theorem Open.close {listener : Int} {clients : Std.ExtTreeMap Int Client} {fds : List Int} {client : Client}
    (h : Open listener clients fds) (hmem : client.fd ∈ clients) :
    (closeClient client).foldlM kernel fds = some (fds.erase client.fd) ∧
      Open listener (clients.erase client.fd) (fds.erase client.fd) := by
  have hopen : client.fd ∈ fds := (h.mem client.fd).mpr (.inr hmem)
  refine ⟨?_, h.nodup.erase _, ?_, ?_⟩
  · rw [closeClient, List.foldlM_cons, kernel, if_pos hopen]
    simp only [Option.bind_eq_bind, Option.bind_some, List.foldlM_cons, List.foldlM_nil, kernel, if_pos hopen]
    rfl
  · intro fd
    rw [h.nodup.mem_erase_iff, h.mem, Std.ExtTreeMap.mem_erase, ne_eq, ne_eq, Std.LawfulEqCmp.compare_eq_iff_eq]
    constructor
    · rintro ⟨hne, rfl | hfd⟩
      · exact .inl rfl
      · exact .inr ⟨fun heq => hne heq.symm, hfd⟩
    · rintro (rfl | ⟨hne, hfd⟩)
      · refine ⟨?_, .inl rfl⟩
        rintro rfl
        exact h.listener hmem
      · exact ⟨fun heq => hne heq.symm, .inr hfd⟩
  · intro hmem'
    exact h.listener (Std.ExtTreeMap.mem_of_mem_erase hmem')

theorem Open.closeRemoved {listener : Int} {clients : Std.ExtTreeMap Int Client} {fds : List Int}
    (h : Open listener clients fds) (hkeyed : ∀ key (c : Client), clients[key]? = some c → c.fd = key)
    (removed : List Int) :
    ∃ fds', (closeRemoved removed clients).foldlM kernel fds = some fds' ∧
      Open listener (removed.foldl (fun clients fd => clients.erase fd) clients) fds' := by
  induction removed generalizing clients fds with
  | nil => exact ⟨fds, rfl, h⟩
  | cons fd removed ih =>
      have herase : ∀ key (c : Client), (clients.erase fd)[key]? = some c → c.fd = key := by
        intro key c hc
        rw [Std.ExtTreeMap.getElem?_erase] at hc
        split at hc
        · cases hc
        · exact hkeyed key c hc
      rw [RigctldDescriptors.closeRemoved, List.foldlM_append, List.foldl_cons]
      cases hfind : clients[fd]? with
      | none =>
          have hnot : fd ∉ clients := by simp [Std.ExtTreeMap.mem_iff_isSome_getElem?, hfind]
          have hsame : ∀ k, k ∈ clients.erase fd ↔ k ∈ clients := by
            intro k
            rw [Std.ExtTreeMap.mem_erase, ne_eq, Std.LawfulEqCmp.compare_eq_iff_eq]
            constructor
            · exact And.right
            · intro hk
              refine ⟨?_, hk⟩
              rintro rfl
              exact hnot hk
          exact ih (h.congr hsame) herase
      | some client =>
          obtain rfl := hkeyed fd client hfind
          obtain ⟨hcalls, hopen⟩ := h.close (Std.ExtTreeMap.mem_iff_isSome_getElem?.mpr (by rw [hfind]; rfl))
          obtain ⟨fds', hrest, hopen'⟩ := ih hopen herase
          refine ⟨fds', ?_, hopen'⟩
          rw [Option.elim_some, hcalls]
          exact hrest

theorem closeRemoved_keys (entries : List (Int × Client)) (clients : Std.ExtTreeMap Int Client)
    (hnodup : (entries.map Prod.fst).Nodup) (hfind : ∀ e ∈ entries, clients[e.1]? = some e.2) :
    closeRemoved (entries.map Prod.fst) clients = entries.flatMap fun e => closeClient e.2 := by
  induction entries generalizing clients with
  | nil => rfl
  | cons e entries ih =>
      rw [List.map_cons, List.nodup_cons] at hnodup
      rw [List.map_cons, closeRemoved, hfind e List.mem_cons_self, Option.elim_some, List.flatMap_cons]
      congr 1
      apply ih _ hnodup.2
      intro e' he'
      rw [Std.ExtTreeMap.getElem?_erase, if_neg]
      · exact hfind e' (List.mem_cons_of_mem e he')
      · rw [Std.LawfulEqCmp.compare_eq_iff_eq]
        intro heq
        exact hnodup.1 (heq ▸ List.mem_map_of_mem he')

theorem fd_of_keyed {w : Work} (h : Keyed w.server) (key : Int) (c : Client) (hc : w.clients[key]? = some c) :
    c.fd = key := by
  have hmem : key ∈ w.clients := Std.ExtTreeMap.mem_iff_isSome_getElem?.mpr (by rw [hc]; rfl)
  have hfd := h key hmem
  rwa [Server.client, show w.server.clients[key]? = some c from hc, Option.getD_some] at hfd

theorem Open.closeAll {w : Work} {fds : List Int} (h : Open w.serverFd w.clients fds)
    (hkeyed : Keyed w.server) :
    ∃ fds', (w.clients.toList.flatMap fun e => closeClient e.2).foldlM kernel fds = some fds' ∧
      Open w.serverFd ∅ fds' := by
  have hfind : ∀ e ∈ w.clients.toList, w.clients[e.1]? = some e.2 := fun e he =>
    Std.ExtTreeMap.mem_toList_iff_getElem?_eq_some.mp he
  have hkeys : w.clients.toList.map Prod.fst = w.clients.keys := Std.ExtTreeMap.map_fst_toList_eq_keys
  have hnodup : (w.clients.toList.map Prod.fst).Nodup := hkeys ▸ Std.ExtTreeMap.nodup_keys
  obtain ⟨fds', hcalls, hopen⟩ := h.closeRemoved (fd_of_keyed hkeyed) (w.clients.toList.map Prod.fst)
  rw [closeRemoved_keys _ _ hnodup hfind] at hcalls
  refine ⟨fds', hcalls, hopen.congr fun k => ?_⟩
  have hmem := mem_removeClients (w.clients.toList.map Prod.fst) w k
  rw [hkeys, Std.ExtTreeMap.mem_keys] at hmem
  rw [hkeys]
  constructor
  · intro hk
    exact absurd hk Std.ExtTreeMap.not_mem_empty
  · intro hk
    exact absurd (hmem.mp hk).1 (hmem.mp hk).2

/-- What a command of the client fd asks of descriptors: nothing but writes to this client. -/
structure Asks (fd : Int) (s s' : Server) : Prop where
  clientFd : (s'.client fd).fd = (s.client fd).fd
  calls : ∃ made, s'.calls = s.calls ++ made ∧
    ∀ c ∈ made.filterMap socketCall, c = .recv (s.client fd).fd ∨ c = .write (s.client fd).fd

instance (fd : Int) : Std.Refl (Asks fd) where
  refl s := ⟨rfl, [], (List.append_nil s.calls).symm, fun _ h => absurd h List.not_mem_nil⟩

instance (fd : Int) : IsTrans Server (Asks fd) where
  trans s t u h h' := by
    obtain ⟨made, hmade, hcalls⟩ := h.calls
    obtain ⟨made', hmade', hcalls'⟩ := h'.calls
    refine ⟨h'.clientFd.trans h.clientFd, made ++ made', ?_, ?_⟩
    · rw [hmade', hmade, List.append_assoc]
    · intro c hc
      rw [List.filterMap_append, List.mem_append] at hc
      rcases hc with hc | hc
      · exact hcalls c hc
      · rw [← h.clientFd]
        exact hcalls' c hc

theorem asks_updateClient (s : Server) (fd key : Int) {f : Client → Client} (hf : ∀ c, (f c).fd = c.fd) :
    Asks fd s (s.updateClient key f) := by
  refine ⟨?_, [], (List.append_nil s.calls).symm, fun _ h => absurd h List.not_mem_nil⟩
  by_cases heq : fd = key
  · rw [heq, updateClient_self, hf]
  · rw [updateClient_of_ne s heq]

theorem asks_socket (s : Server) (fd : Int) (c : Call)
    (h : socketCall c = some (.recv (s.client fd).fd) ∨ socketCall c = some (.write (s.client fd).fd)) :
    Asks fd s { s with calls := s.calls ++ [c] } := by
  refine ⟨rfl, [c], rfl, ?_⟩
  intro c' hc'
  rw [List.mem_filterMap] at hc'
  obtain ⟨c₀, hmem, hc'⟩ := hc'
  rw [List.mem_singleton.mp hmem] at hc'
  rcases h with h | h
  · rw [h] at hc'
    exact .inl (Option.some.inj hc').symm
  · rw [h] at hc'
    exact .inr (Option.some.inj hc').symm

variable {env : Environment} {key : Int} {s s' : Server} {keep : Bool}

theorem writeFromClient_asks (h : writeFromClient env key s = .returned keep s') : Asks key s s' := by
  rw [writeFromClient_eq] at h
  split at h
  · cases h
    exact Std.Refl.refl s
  · have hwrite := asks_socket s key (.write (s.client key).fd (s.client key).writeBuffer) (.inr rfl)
    split at h
    · cases h
      exact hwrite
    · cases h
      exact IsTrans.trans _ _ _ hwrite (asks_updateClient _ key key fun _ => rfl)

theorem asks_serving : Serving env key (Asks key) := by
  refine ⟨?_, ?_, ?_⟩
  · intro α c answer hrig s
    refine ⟨rfl, [c], rfl, fun c' hc' => ?_⟩
    have hnone : socketCall c = none := by
      cases c with
      | recv fd => cases hrig
      | write fd text => cases hrig
      | _ => rfl
    rw [List.filterMap_cons_none hnone] at hc'
    exact absurd hc' List.not_mem_nil
  · exact fun response => meets_modifyState fun s => asks_updateClient s key key fun _ => rfl
  · intro s
    obtain ⟨keep, s', hwrite⟩ := writeFromClient_returns env key s
    rw [hwrite]
    exact writeFromClient_asks hwrite

theorem readLoop_asks {n : Nat} (hfd : (s.client key).fd = key) (h : readLoop env key n s = .returned keep s') :
    Asks key s s' := by
  induction n generalizing s with
  | zero =>
      cases h
      exact Std.Refl.refl _
  | succ n ih =>
      rw [readLoop_succ] at h
      split at h
      · cases h
        exact Std.Refl.refl _
      · rename_i pos _
        rw [hfd] at h
        split at h
        · rename_i t hline
          have hasks := (serving_handleLine asks_serving (handleLine_defined hline)).returned hline
          have herase := asks_updateClient t key key (f := fun c =>
            { c with readBuffer := c.readBuffer.drop (((s.client key).readBuffer.take pos).length + 1) })
              fun _ => rfl
          have hboth : Asks key s _ := IsTrans.trans _ _ _ hasks herase
          exact IsTrans.trans _ _ _ hboth (ih (hboth.clientFd.trans hfd) h)
        · rename_i t hline
          cases h
          exact (serving_handleLine asks_serving (handleLine_defined hline)).returned hline
        · cases h
        · cases h

theorem readFromClient_asks (hfd : (s.client key).fd = key) (h : readFromClient env key s = .returned keep s') :
    Asks key s s' := by
  have hrecv := asks_socket s key (.recv (s.client key).fd) (.inl rfl)
  rw [readFromClient_eq] at h
  split at h
  · cases h
    exact hrecv
  · cases h
    exact hrecv
  · rename_i msg _ _
    have hreceived : Asks key s (received key msg s) :=
      IsTrans.trans _ _ _ hrecv (asks_updateClient _ key key fun _ => rfl)
    split at h
    · cases h
      exact hreceived
    · exact IsTrans.trans _ _ _ hreceived (readLoop_asks (hreceived.clientFd.trans hfd) h)

theorem clientCalls_asks {w w' : Work} (h : Asks key w.server w'.server)
    (hfd : (w.server.client key).fd = key) :
    ∀ c ∈ clientCalls w w', c = .recv key ∨ c = .write key := by
  obtain ⟨made, hmade, hcalls⟩ := h.calls
  rw [clientCalls, hmade, List.drop_left, ← hfd]
  exact hcalls

theorem clientCalls_none {w w' : Work} (h : w'.server.calls = w.server.calls) : clientCalls w w' = [] := by
  rw [clientCalls, h, List.drop_length, List.filterMap_nil]

variable {w w' : Work} {a : Action} {fds : List Int}

/-- The calls of a step name descriptors that are open, and afterwards the listener and the clients are. -/
structure Next (w w' : Work) (a : Action) (fds : List Int) : Prop where
  serverFd : w'.serverFd = w.serverFd
  calls : ∃ fds', (workCalls w a ++ clientCalls w w').foldlM kernel fds = some fds' ∧
    Open w.serverFd w'.clients fds'

theorem next_own (fds' : List Int) (hserverFd : w'.serverFd = w.serverFd)
    (hcalls : w'.server.calls = w.server.calls) (hwork : (workCalls w a).foldlM kernel fds = some fds')
    (hopen : Open w.serverFd w'.clients fds') : Next w w' a fds := by
  refine ⟨hserverFd, fds', ?_, hopen⟩
  rw [clientCalls_none hcalls, List.append_nil]
  exact hwork

theorem next_quiet (h : Open w.serverFd w.clients fds) (hserverFd : w'.serverFd = w.serverFd)
    (hwork : workCalls w a = []) (hcalls : w'.server.calls = w.server.calls)
    (hsame : ∀ k, k ∈ w'.clients ↔ k ∈ w.clients) : Next w w' a fds := by
  refine next_own fds hserverFd hcalls ?_ (h.congr hsame)
  rw [hwork]
  rfl

theorem next_serves {server : Server} (pc : Pc) (h : Open w.serverFd w.clients fds) (hwork : workCalls w a = [])
    (hmem : key ∈ w.clients) (hfd : (w.server.client key).fd = key) (hasks : Asks key w.server server)
    (hserves : Serves key w.server server) : Next w { w with server, pc } a fds := by
  refine ⟨rfl, fds, ?_, h.congr hserves.members⟩
  have hopen : key ∈ fds := (h.mem key).mpr (.inr hmem)
  rw [hwork, List.nil_append]
  apply kernel_uses
  intro c hc
  rcases clientCalls_asks hasks hfd c hc with rfl | rfl <;> exact if_pos hopen

theorem next_poll (h : Open w.serverFd w.clients fds) (hmirror : Mirror w) (pc : Pc)
    (hwork : workCalls w a = [.poll ((w.pfds.take w.pfdNr).map PollFd.fd)]) : Next w { w with pc } a fds := by
  have hpolled : ∀ fd ∈ (w.pfds.take w.pfdNr).map PollFd.fd, fd ∈ fds := by
    intro fd hfd
    obtain ⟨p, hp, rfl⟩ := List.mem_map.mp hfd
    have hall : p.fd ∈ w.pfds.map PollFd.fd := List.mem_map_of_mem (List.mem_of_mem_take hp)
    rw [hmirror.fds, List.mem_cons, Std.ExtTreeMap.mem_keys] at hall
    exact (h.mem p.fd).mpr hall
  refine next_own fds rfl rfl ?_ h
  rw [hwork]
  apply kernel_uses
  intro c hc
  rw [List.mem_singleton.mp hc]
  exact if_pos hpolled

theorem next_accept {clientFd : Int} (pc : Pc) (h : Open w.serverFd w.clients fds)
    (hwork : workCalls w a = [.accept w.serverFd clientFd]) (hfd : clientFd < 0 ∨ Unused w clientFd) :
    Next w { acceptClient clientFd w with pc } a fds := by
  have hframe : (acceptClient clientFd w).serverFd = w.serverFd ∧
      (acceptClient clientFd w).server.calls = w.server.calls := by
    rw [acceptClient]
    split <;> exact ⟨rfl, rfl⟩
  have hlistener : w.serverFd ∈ fds := (h.mem w.serverFd).mpr (.inl rfl)
  have hmem (k : Int) : k ∈ Work.clients { acceptClient clientFd w with pc } ↔ _ :=
    mem_acceptClient clientFd w k
  by_cases hneg : clientFd < 0
  · refine next_own fds hframe.1 hframe.2 ?_ (h.congr fun k => ?_)
    · rw [hwork, List.foldlM_cons, kernel, if_pos ⟨hlistener, .inl hneg⟩, if_pos hneg]
      rfl
    · rw [hmem]
      constructor
      · rintro (hk | ⟨hpos, -⟩)
        · exact hk
        · omega
      · exact .inl
  · obtain ⟨hnew, hne⟩ := hfd.resolve_left hneg
    have hclosed : clientFd ∉ fds := by
      rw [h.mem, not_or]
      exact ⟨hne, hnew⟩
    refine next_own (clientFd :: fds) hframe.1 hframe.2 ?_ ⟨List.nodup_cons.mpr ⟨hclosed, h.nodup⟩, ?_, ?_⟩
    · rw [hwork, List.foldlM_cons, kernel, if_pos ⟨hlistener, .inr hclosed⟩, if_neg hneg]
      rfl
    · intro fd
      rw [hmem, List.mem_cons, h.mem]
      constructor
      · rintro (rfl | hfd | hfd)
        · exact .inr (.inr ⟨by omega, rfl⟩)
        · exact .inl hfd
        · exact .inr (.inl hfd)
      · rintro (hfd | hfd | ⟨-, hfd⟩)
        · exact .inr (.inl hfd)
        · exact .inr (.inr hfd)
        · exact .inl hfd
    · rw [hmem]
      rintro (hk | ⟨-, hk⟩)
      · exact h.listener hk
      · exact hne hk.symm

theorem next_close (h : Open w.serverFd w.clients fds) (hkeyed : Keyed w.server) (hpc : w.pc = .closing) :
    Next w { closeRig w with pc := .opening } .advance fds := by
  cases hrig : w.rig with
  | none =>
      have hsame : closeRig w = w := by rw [closeRig, hrig]
      rw [hsame]
      exact next_quiet h rfl (by simp [workCalls, hpc, hrig]) rfl fun _ => Iff.rfl
  | some rig =>
      have hwork : workCalls w .advance = w.clients.toList.flatMap fun e => closeClient e.2 := by
        simp [workCalls, hpc, hrig]
      have hclosed : (closeRig w).serverFd = w.serverFd ∧ (closeRig w).server.calls = w.server.calls ∧
          (closeRig w).clients = ∅ := by
        rw [closeRig, hrig]
        exact ⟨rfl, rfl, rfl⟩
      obtain ⟨fds', hcalls, hopen⟩ := h.closeAll hkeyed
      refine next_own fds' hclosed.1 hclosed.2.1 (hwork ▸ hcalls) ?_
      rw [show Work.clients { closeRig w with pc := .opening } = ∅ from hclosed.2.2]
      exact hopen

theorem next_sweep {fdToAdd : Int} {fdsToRemove : List Int} (h : Open w.serverFd w.clients fds)
    (hkeyed : Keyed w.server) (hpc : w.pc = .sweep fdToAdd fdsToRemove) :
    Next w (sweep w fdToAdd fdsToRemove) .advance fds := by
  have hserver := sweep_server w fdToAdd fdsToRemove
  obtain ⟨fds', hcalls, hopen⟩ := h.closeRemoved (fd_of_keyed hkeyed) fdsToRemove
  have hserverFd : (sweep w fdToAdd fdsToRemove).serverFd = w.serverFd := by
    rw [sweep]
    split <;> rfl
  refine next_own fds' hserverFd ((congrArg Server.calls hserver).trans rfl) ?_ ?_
  · simp only [workCalls, hpc]
    exact hcalls
  · rw [Work.clients, hserver]
    exact hopen

theorem next_steps (hkeyed : Keyed w.server) (hplaced : Placed w) (h : Open w.serverFd w.clients fds)
    (hs : Steps env w a w') : Next w w' a fds := by
  cases hs with
  | disconnect | stop =>
      have hwork : workCalls w .disconnect = [] ∧ workCalls w .stop = [] := by
        constructor <;> cases hpc : w.pc <;> simp [workCalls, hpc]
      first
        | exact next_quiet h rfl hwork.1 rfl fun _ => Iff.rfl
        | exact next_quiet h rfl hwork.2 rfl fun _ => Iff.rfl
  | started hpc | leave hpc | lost hpc _ | live hpc _ | connect hpc | scanned hpc _ =>
      exact next_quiet h rfl (by simp only [workCalls, hpc]) rfl fun _ => Iff.rfl
  | error hpc _ _ | noInput hpc _ _ _ | noOutput hpc _ _ =>
      exact next_quiet h rfl (by simp only [workCalls, hpc]) rfl fun _ => Iff.rfl
  | opened hpc result =>
      have hwork : workCalls w (.opened result) = [] := by simp only [workCalls, hpc]
      cases result <;> exact next_quiet h rfl hwork rfl fun _ => Iff.rfl
  | timeout hpc | poll hpc _ _ =>
      rw [Placed, hpc] at hplaced
      exact next_poll h hplaced _ (by simp only [workCalls, hpc])
  | accept hpc hat hzero fd hfd => exact next_accept _ h (by simp only [workCalls, hpc]) hfd
  | read hpc hat _ hne _ _ hread =>
      have hmem := readable_client hplaced hpc hat hne
      have hserves := read_serves hkeyed hmem hread
      rw [clientAt_eq hmem] at hread
      have hfd := hkeyed _ hmem
      exact next_serves _ h (by simp only [workCalls, hpc]) hmem hfd (readFromClient_asks hfd hread) hserves
  | write hpc hat hout hwrite =>
      have hmem := writable_client hplaced hpc hat hout
      have hserves := write_serves hmem hwrite
      rw [clientAt_eq hmem] at hwrite
      have hfd := hkeyed _ hmem
      exact next_serves _ h (by simp only [workCalls, hpc]) hmem hfd (writeFromClient_asks hwrite) hserves
  | close hpc => exact next_close h hkeyed hpc
  | sweep hpc => exact next_sweep h hkeyed hpc
  | flags hpc hflags =>
      obtain ⟨flags, -, rfl⟩ := Option.map_eq_some_iff.mp hflags
      exact next_quiet h rfl (by simp only [workCalls, hpc]) rfl fun _ => Iff.rfl

structure Held (listener : Int) (s : Sockets) : Prop where
  keyed : Keyed s.work.server
  placed : Placed s.work
  serverFd : s.work.serverFd = listener
  calls : ∃ fds, s.calls.foldlM kernel [listener] = some fds ∧ Open listener s.work.clients fds

theorem held_step {listener : Int} {s s' : Sockets} (h : Held listener s) (hs : step env s a = some s') :
    Held listener s' := by
  obtain ⟨w', hw', rfl⟩ := Option.map_eq_some_iff.mp hs
  have hsteps := steps_of_step hw'
  obtain ⟨hkeyed, hplaced⟩ := placed_step h.keyed h.placed hsteps
  obtain ⟨fds, hcalls, hopen⟩ := h.calls
  rw [← h.serverFd] at hopen
  have hnext := next_steps h.keyed h.placed hopen hsteps
  obtain ⟨fds', hcalls', hopen'⟩ := hnext.calls
  refine ⟨hkeyed, hplaced, hnext.serverFd.trans h.serverFd, fds', ?_, ?_⟩
  · rw [List.append_assoc, List.foldlM_append, hcalls]
    exact hcalls'
  · rw [← h.serverFd]
    exact hopen'

theorem held_start (rigModel serverFd : Int) : Held serverFd (start rigModel serverFd) := by
  obtain ⟨hkeyed, hplaced⟩ := placed_start rigModel serverFd
  have hnone (k : Int) : k ∉ (RigctldWork.start rigModel serverFd).clients := Std.ExtTreeMap.not_mem_empty
  refine ⟨hkeyed, hplaced, rfl, [serverFd], rfl, List.nodup_singleton serverFd, ?_, hnone serverFd⟩
  intro fd
  rw [List.mem_singleton]
  constructor
  · exact .inl
  · rintro (hfd | hfd)
    · exact hfd
    · exact absurd hfd (hnone fd)

/-- The worker never makes a call on a descriptor that is not open, so that none is closed twice or used
after its close, and what it has open are the listener and the clients of its table. -/
theorem descriptors_open (env : Environment) (rigModel serverFd : Int) (as : List Action) (s : Sockets)
    (h : Run (step env) (fun _ _ => True) (start rigModel serverFd) as s) :
    ∃ fds, s.calls.foldlM kernel [serverFd] = some fds ∧ fds.Nodup ∧
      ∀ fd, fd ∈ fds ↔ fd = serverFd ∨ fd ∈ s.work.clients := by
  have hheld : Held serverFd s := by
    apply h.invariant (Held serverFd)
    · exact held_start rigModel serverFd
    · exact fun _ _ _ hinv _ hstep => held_step hinv hstep
  obtain ⟨fds, hcalls, hopen⟩ := hheld.calls
  exact ⟨fds, hcalls, hopen.nodup, hopen.mem⟩

/-- A client quits while its socket takes nothing any more: it is marked twice and closed once. -/
theorem quitting_closed_once : ∃ (s : Sockets) (fds : List Int),
    s.calls = [.poll [3], .accept 3 4, .poll [3, 4], .recv 4, .write 4, .write 4, .shutdown 4, .close 4] ∧
    s.calls.foldlM kernel [3] = some fds ∧ fds.Nodup ∧ ∀ fd, fd ∈ fds ↔ fd = 3 ∨ fd ∈ s.work.clients := by
  let env : Environment := { idleRig with received := fun _ => some (ascii "q\n"), written := fun _ => -1 }
  let quitting : List Action := connecting ++ [.polled [⟨false, false, false⟩, ⟨false, true, true⟩], .advance,
    .advance, .advance, .advance, .advance, .advance]
  obtain ⟨s, hrun, hcalls⟩ := run_of_exec_map (step env) (fun _ _ => True) (start modelIC7300 3) quitting
    Sockets.calls [.poll [3], .accept 3 4, .poll [3, 4], .recv 4, .write 4, .write 4, .shutdown 4, .close 4]
    (by decide +kernel)
  obtain ⟨fds, hopen⟩ := descriptors_open env modelIC7300 3 quitting s hrun
  exact ⟨s, fds, hcalls, hopen⟩

theorem setFlags_eq {pfds : List PollFd} {clients : List Client}
    (h : pfds.map PollFd.fd = clients.map Client.fd) :
    setFlags pfds clients = some (clients.map fun c => ⟨c.fd, c.writeBuffer ≠ []⟩) := by
  induction pfds generalizing clients with
  | nil =>
      rw [List.map_eq_nil_iff.mp h.symm]
      rfl
  | cons p pfds ih =>
      cases clients with
      | nil => cases h
      | cons c clients =>
          rw [List.map_cons, List.map_cons, List.cons.injEq] at h
          rw [setFlags, ih h.2, Option.map_some, List.map_cons, h.1]

def Settled : Pc → Prop
  | .scanIn _ | .scanOut _ | .sweep _ _ | .flags => False
  | _ => True

/-- The array asks for what update_poll_descriptors would have it ask for. -/
structure Asking (w : Work) : Prop where
  listener : w.pfds.head? = some ⟨w.serverFd, false⟩
  settled : Settled w.pc → w.pfds = (updatePollDescriptors w).pfds

theorem mirror_of_flags (hplaced : Placed w) (hpc : w.pc = .flags) (h : updatePollFlags w = some w') :
    Mirror w := by
  rw [Placed, hpc] at hplaced
  refine hplaced.resolve_right fun hshort => ?_
  rw [updatePollFlags, setFlags_none] at h
  · cases h
  · rw [List.length_map, Std.ExtTreeMap.length_toList]
    exact hshort

theorem asking_flags (hkeyed : Keyed w.server) (hmirror : Mirror w)
    (hlistener : w.pfds.head? = some ⟨w.serverFd, false⟩) (h : updatePollFlags w = some w') :
    w'.pfds = (updatePollDescriptors w).pfds := by
  have htail : w.pfds.tail.map PollFd.fd = (w.clients.toList.map Prod.snd).map Client.fd := by
    rw [hmirror.tail_fds, List.map_map]
    exact (toList_map_fd hkeyed).symm
  rw [updatePollFlags, setFlags_eq htail, Option.map_some] at h
  obtain rfl := Option.some.inj h
  have hhead : w.pfds.take 1 = [⟨w.serverFd, false⟩] := by
    rw [List.take_one, hlistener]
    rfl
  rw [hhead, updatePollDescriptors, List.map_map]
  rfl

theorem asking_step (hkeyed : Keyed w.server) (hplaced : Placed w) (h : Asking w)
    (hs : Steps env w a w') : Asking w' := by
  cases hs with
  | disconnect | stop => exact ⟨h.listener, h.settled⟩
  | started hpc | leave hpc | lost hpc _ | live hpc _ | timeout hpc | connect hpc =>
      have hsettled := h.settled
      rw [hpc] at hsettled
      exact ⟨h.listener, fun _ => hsettled trivial⟩
  | close hpc =>
      have hsettled := h.settled
      rw [hpc] at hsettled
      rw [closeRig]
      split
      · exact ⟨h.listener, fun _ => hsettled trivial⟩
      · exact ⟨rfl, fun _ => rfl⟩
  | opened hpc result =>
      have hsettled := h.settled
      rw [hpc] at hsettled
      cases result <;> exact ⟨h.listener, fun _ => hsettled trivial⟩
  | accept _ _ _ fd _ =>
      refine ⟨?_, False.elim⟩
      rw [acceptClient]
      split <;> exact h.listener
  | sweep hpc =>
      refine ⟨?_, False.elim⟩
      rw [sweep]
      split
      · rfl
      · exact h.listener
  | flags hpc hflags =>
      have hmirror := mirror_of_flags hplaced hpc hflags
      have hpfds := asking_flags hkeyed hmirror h.listener hflags
      obtain ⟨flags, -, rfl⟩ := Option.map_eq_some_iff.mp hflags
      refine ⟨?_, fun _ => hpfds⟩
      rw [hpfds]
      rfl
  | _ => exact ⟨h.listener, False.elim⟩

/-- At every call of poll the array asks for input of the listener and of the clients, and for output of exactly
the clients that something is buffered for: no answer waits without being asked for, and poll does not
return at once for a client that there is nothing for. -/
theorem poll_asks_for_pending (env : Environment) (rigModel serverFd : Int) (as : List Action) (w : Work)
    (h : Run (RigctldWork.step env) (fun _ _ => True) (RigctldWork.start rigModel serverFd) as w)
    (hpc : w.pc = .poll) :
    w.pfds = ⟨w.serverFd, false⟩ :: w.clients.toList.map (fun c => ⟨c.1, c.2.writeBuffer ≠ []⟩) ∧
      w.pfdNr = w.pfds.length := by
  have hall : (Keyed w.server ∧ Placed w) ∧ Asking w := by
    apply h.invariant fun w => (Keyed w.server ∧ Placed w) ∧ Asking w
    · exact ⟨placed_start rigModel serverFd, rfl, fun _ => rfl⟩
    · rintro v a v' ⟨⟨hkeyed, hplaced⟩, hasking⟩ - hstep
      have hs := steps_of_step hstep
      exact ⟨placed_step hkeyed hplaced hs, asking_step hkeyed hplaced hasking hs⟩
  obtain ⟨⟨hkeyed, hplaced⟩, hasking⟩ := hall
  have hsettled := hasking.settled
  rw [Placed, hpc] at hplaced
  rw [hpc] at hsettled
  refine ⟨?_, hplaced.pfdNr.trans hplaced.entries.symm⟩
  have hkeys : w.clients.toList.map (fun c => (⟨c.2.fd, c.2.writeBuffer ≠ []⟩ : PollFd)) =
      w.clients.toList.map fun c => ⟨c.1, c.2.writeBuffer ≠ []⟩ := by
    apply List.map_congr_left
    rintro ⟨key, c⟩ hmem
    rw [fd_of_keyed hkeyed key c (Std.ExtTreeMap.mem_toList_iff_getElem?_eq_some.mp hmem)]
  rw [hsettled trivial, ← hkeys]
  rfl

theorem frequency_pending : ∃ w : Work, w.pc = .poll ∧ w.pfds = [⟨3, false⟩, ⟨4, true⟩] ∧
    w.pfds = ⟨w.serverFd, false⟩ :: w.clients.toList.map (fun c => ⟨c.1, c.2.writeBuffer ≠ []⟩) := by
  let env : Environment := { idleRig with received := fun _ => some (ascii "f\n") }
  let asking : List Action := connecting ++ [.polled [⟨false, false, false⟩, ⟨false, true, false⟩], .advance,
    .advance, .advance, .advance, .advance, .advance, .advance, .advance]
  obtain ⟨w, hrun, hview⟩ := run_of_exec_map (RigctldWork.step env) (fun _ _ => True)
    (RigctldWork.start modelIC7300 3) asking (fun w => (w.pc, w.pfds)) (.poll, [⟨3, false⟩, ⟨4, true⟩])
      (by decide +kernel)
  simp only [Prod.mk.injEq] at hview
  exact ⟨w, hview.1, hview.2, (poll_asks_for_pending env modelIC7300 3 asking w hrun hview.1).1⟩

end Cwsd.RigctldDescriptors
