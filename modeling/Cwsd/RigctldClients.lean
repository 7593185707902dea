import Cwsd.RigctldReplies

namespace Cwsd.RigctldClients

open Effects Stoi StringUtil RigctldServer RigctldSafety RigctldReplies

/-- What reading from the client key and writing to it may change: the buffers of this client. -/
structure Serves (key : Int) (s s' : Server) : Prop where
  rigModel : s'.rigModel = s.rigModel
  rigDisconnected : s'.rigDisconnected = s.rigDisconnected
  members : ∀ k, k ∈ s'.clients ↔ k ∈ s.clients
  clientFd : (s'.client key).fd = (s.client key).fd
  others : ∀ k, k ≠ key → s'.client k = s.client k

theorem Serves.refl (key : Int) (s : Server) : Serves key s s :=
  ⟨rfl, rfl, fun _ => Iff.rfl, rfl, fun _ _ => rfl⟩

theorem Serves.trans {key : Int} {s s' s'' : Server} (h : Serves key s s') (h' : Serves key s' s'') :
    Serves key s s'' :=
  ⟨h'.rigModel.trans h.rigModel, h'.rigDisconnected.trans h.rigDisconnected,
    fun k => (h'.members k).trans (h.members k), h'.clientFd.trans h.clientFd,
    fun k hk => (h'.others k hk).trans (h.others k hk)⟩

theorem serves_calls (key : Int) (s : Server) (calls : List Call) : Serves key s { s with calls } :=
  ⟨rfl, rfl, fun _ => Iff.rfl, rfl, fun _ _ => rfl⟩

theorem mem_updateClient {s : Server} {key : Int} (hkey : key ∈ s.clients) (f : Client → Client) (k : Int) :
    k ∈ (s.updateClient key f).clients ↔ k ∈ s.clients := by
  rw [Server.updateClient, Std.ExtTreeMap.mem_insert, Std.LawfulEqCmp.compare_eq_iff_eq]
  constructor
  · rintro (rfl | hk)
    · exact hkey
    · exact hk
  · exact .inr

theorem serves_updateClient {s : Server} {key : Int} (hkey : key ∈ s.clients) {f : Client → Client}
    (hf : ∀ c, (f c).fd = c.fd) : Serves key s (s.updateClient key f) := by
  refine ⟨rfl, rfl, mem_updateClient hkey f, ?_, ?_⟩
  · rw [updateClient_self, hf]
  · intro k hk
    exact updateClient_of_ne s hk f

theorem serves_respond {s : Server} {key : Int} (hkey : key ∈ s.clients) (responses : List (List UInt8)) :
    Serves key s (respond s key responses) := by
  induction responses generalizing s with
  | nil => exact .refl key s
  | cons response responses ih =>
      have hfirst := serves_updateClient hkey (f := fun c =>
        { c with writeBuffer := c.writeBuffer ++ response ++ ascii "\n" }) fun _ => rfl
      exact hfirst.trans (ih ((hfirst.members key).mpr hkey))

variable {env : Environment} {key : Int} {s s' : Server} {keep : Bool}

theorem writeFromClient_serves (hkey : key ∈ s.clients) (h : writeFromClient env key s = .returned keep s') :
    Serves key s s' := by
  rw [writeFromClient_eq] at h
  split at h
  · cases h
    exact .refl key s
  · split at h
    · cases h
      exact serves_calls key s _
    · cases h
      let called : Server :=
        { s with calls := s.calls ++ [.write (s.client key).fd (s.client key).writeBuffer] }
      have hcalled : key ∈ called.clients := hkey
      exact (serves_calls key s _).trans (serves_updateClient hcalled (f := fun c =>
        { c with writeBuffer := c.writeBuffer.drop (env.written s.calls).toNat }) fun _ => rfl)

theorem handleLine_defined {line : List UInt8} (h : handleLine env line key s = .returned keep s') :
    ¬ LacksWidth line := by
  intro hlacks
  rw [handleLine, tryCatch.eq_def, interpretCommand_undefined env key hlacks s] at h
  cases h

theorem handleLine_readBuffer {line : List UInt8} (h : handleLine env line key s = .returned keep s') (k : Int) :
    (s'.client k).readBuffer = (s.client k).readBuffer :=
  ((meets_handleLine env key (handleLine_defined h)).returned h).readBuffer k

theorem handleLine_serves {line : List UInt8} (hkey : key ∈ s.clients)
    (h : handleLine env line key s = .returned keep s') : Serves key s s' := by
  by_cases hquit : Quits line
  · obtain ⟨more, t, ht, hwrite⟩ := handleLine_quit env hquit key s
    rw [ht] at h
    cases h
    have hrespond := serves_respond hkey [ascii "RPRT 0"]
    exact hrespond.trans (writeFromClient_serves ((hrespond.members key).mpr hkey) hwrite)
  · obtain ⟨responses, made, hs', -⟩ := handleLine_returned env (handleLine_defined h) hquit key s
    rw [hs'] at h
    cases h
    exact (serves_respond hkey responses).trans (serves_calls key _ _)

theorem find_newline {buffer : List UInt8} {pos : Nat} (h : find buffer ['\n'.toUInt8] 0 = some pos) :
    buffer = buffer.take pos ++ '\n'.toUInt8 :: buffer.drop (pos + 1) ∧ '\n'.toUInt8 ∉ buffer.take pos ∧
      (buffer.take pos).length = pos := by
  obtain ⟨hcut, hnot⟩ := find_byte h
  have hbound := find_bound h (List.cons_ne_nil _ _)
  rw [List.drop_zero, Nat.sub_zero] at hcut hnot
  refine ⟨hcut, hnot, ?_⟩
  rw [List.length_take]
  exact Nat.min_eq_left (Nat.le_of_succ_le hbound)

/-- One pass of the loop over the lines. -/
theorem readLoop_succ (env : Environment) (key : Int) (n : Nat) (s : Server) :
    readLoop env key (n + 1) s =
      match find (s.client key).readBuffer ['\n'.toUInt8] 0 with
      | none => .returned true s
      | some pos =>
          match handleLine env ((s.client key).readBuffer.take pos) (s.client key).fd s with
          | .returned true t =>
              readLoop env key n (t.updateClient key fun c => { c with
                readBuffer := c.readBuffer.drop (((s.client key).readBuffer.take pos).length + 1) })
          | .returned false t => .returned false t
          | .threw e t => .threw e t
          | .undefined => .undefined := by
  rw [readLoop, bind_apply, getState, Outcome.andThen]
  cases find (s.client key).readBuffer ['\n'.toUInt8] 0 with
  | none => rfl
  | some pos =>
      simp only [bind_apply]
      cases handleLine env ((s.client key).readBuffer.take pos) (s.client key).fd s with
      | returned more t => cases more <;> rfl
      | threw e t => rfl
      | undefined => rfl

/-- The loop leaves no complete line behind, unless the client has quit. -/
theorem readLoop_serves {n : Nat} (hkey : key ∈ s.clients) (hfd : (s.client key).fd = key)
    (h : readLoop env key n s = .returned keep s') :
    Serves key s s' ∧
      (keep = true → (s.client key).readBuffer.length ≤ n → '\n'.toUInt8 ∉ (s'.client key).readBuffer) := by
  induction n generalizing s with
  | zero =>
      cases h
      refine ⟨.refl key _, fun _ hlen => ?_⟩
      rw [List.length_eq_zero_iff.mp (Nat.le_zero.mp hlen)]
      exact List.not_mem_nil
  | succ n ih =>
      rw [readLoop_succ] at h
      cases hfind : find (s.client key).readBuffer ['\n'.toUInt8] 0 with
      | none =>
          rw [hfind] at h
          cases h
          exact ⟨.refl key _, fun _ _ => find_byte_none hfind (Nat.zero_le _)⟩
      | some pos =>
          obtain ⟨hcut, -, hlen⟩ := find_newline hfind
          rw [hfind, hfd] at h
          simp only [hlen] at h
          cases hline : handleLine env ((s.client key).readBuffer.take pos) key s with
          | returned more t =>
              have hserves := handleLine_serves hkey hline
              have hbuffer := handleLine_readBuffer hline key
              rw [hline] at h
              cases more with
              | false =>
                  cases h
                  exact ⟨hserves, nofun⟩
              | true =>
                  have hmem := (hserves.members key).mpr hkey
                  have herase := serves_updateClient hmem (f := fun c =>
                    { c with readBuffer := c.readBuffer.drop (pos + 1) }) fun _ => rfl
                  obtain ⟨hrest, hnone⟩ := ih ((herase.members key).mpr hmem)
                    (by rw [herase.clientFd, hserves.clientFd, hfd]) h
                  refine ⟨(hserves.trans herase).trans hrest, fun hkeep hle => hnone hkeep ?_⟩
                  rw [updateClient_self, hbuffer, List.length_drop]
                  omega
          | threw e t =>
              rw [hline] at h
              cases h
          | undefined =>
              rw [hline] at h
              cases h

/-- What recv brings is appended, up to the first NUL of it. -/
def received (key : Int) (msg : List UInt8) (s : Server) : Server :=
  Server.updateClient { s with calls := s.calls ++ [Call.recv (s.client key).fd] } key fun c =>
    { c with readBuffer := c.readBuffer ++ cString (msg.take msgSize) }

theorem readFromClient_eq (env : Environment) (key : Int) (s : Server) :
    readFromClient env key s =
      match env.received s.calls with
      | none => .returned false { s with calls := s.calls ++ [Call.recv (s.client key).fd] }
      | some [] => .returned false { s with calls := s.calls ++ [Call.recv (s.client key).fd] }
      | some msg =>
          if s.rigDisconnected = true then .returned true (received key msg s)
          else readLoop env key ((received key msg s).client key).readBuffer.length (received key msg s) := by
  rw [readFromClient, bind_apply, getState, Outcome.andThen, bind_apply, call, Outcome.andThen]
  cases env.received s.calls with
  | none => rfl
  | some msg =>
      cases msg with
      | nil => rfl
      | cons c msg =>
          simp only [bind_apply, modifyState, getState, Outcome.andThen]
          by_cases hdis : s.rigDisconnected = true
          · rw [if_pos hdis]
            exact congrFun (if_pos hdis) _
          · rw [if_neg hdis]
            exact congrFun (if_neg hdis) _

theorem serves_received (hkey : key ∈ s.clients) (msg : List UInt8) : Serves key s (received key msg s) := by
  let called : Server := { s with calls := s.calls ++ [Call.recv (s.client key).fd] }
  have hcalled : key ∈ called.clients := hkey
  exact (serves_calls key s _).trans (serves_updateClient hcalled (f := fun c =>
    { c with readBuffer := c.readBuffer ++ cString (msg.take msgSize) }) fun _ => rfl)

theorem readFromClient_serves (hkey : key ∈ s.clients) (hfd : (s.client key).fd = key)
    (h : readFromClient env key s = .returned keep s') :
    Serves key s s' ∧
      (keep = true → s.rigDisconnected = false → '\n'.toUInt8 ∉ (s'.client key).readBuffer) := by
  rw [readFromClient_eq] at h
  split at h
  · cases h
    exact ⟨serves_calls key s _, nofun⟩
  · cases h
    exact ⟨serves_calls key s _, nofun⟩
  · rename_i msg _ _
    have hreceived := serves_received hkey msg
    split at h
    · rename_i hdis
      cases h
      refine ⟨hreceived, fun _ hlive => ?_⟩
      rw [hdis] at hlive
      cases hlive
    · obtain ⟨hserves, hnone⟩ := readLoop_serves ((hreceived.members key).mpr hkey)
        (hreceived.clientFd.trans hfd) h
      exact ⟨hreceived.trans hserves, fun hkeep _ => hnone hkeep (Nat.le_refl _)⟩

end Cwsd.RigctldClients
