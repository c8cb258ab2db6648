import TaskSheduler.Dialogue
import TaskSheduler.HandleOwners

/-!
# Who closes the sockets

A socket is a local variable of one call: of `send_command`, of `start_server`
or of `handle_client`.  A handler is given the socket that `accept` makes, and
what the server still has is closed by the kernel when it ends.

So no socket is ever used or closed after it was closed, in whatever order the
threads step and whatever fails.  But `send_command` returns without `close`
where `inet_pton` or `connect` fails, and its program goes on with the next
line: every socket is closed exactly if these two never fail.
-/

namespace TaskSheduler

open HandleCustody Interleaving

/-- The call that has a socket. -/
inductive SocketOwner (Client : Type*)
  | client (c : Client)
  | server
  | handler (sock : Socket)
deriving DecidableEq

/-- It is a call of the server. -/
def SocketOwner.ofServer {Client : Type*} : SocketOwner Client → Bool
  | .client _ => false
  | .server | .handler _ => true

variable {Client : Type*}

namespace DialogueState

/-- The socket that a call has. -/
def owner (s : DialogueState Client) : SocketOwner Client → Option Socket
  | .client c => (s.client c).sock
  | .server => s.server.serverFd
  | .handler k => if (s.handler k).active then some k else none

/-- What does not happen here: that `send_command` returns without `close`. -/
def keepsSocket (s : DialogueState Client) : DialogueAction Client → Bool
  | .client c ok _ =>
      match s.client c with
      | .inetPton _ _ | .connect _ _ => ok
      | _ => true
  | _ => true

/-- The numbers from `made` on are free. -/
structure Numbered (s : DialogueState Client) : Prop where
  unopened : ∀ k, s.made ≤ k → s.status k = .unopened
  owned : ∀ {o k}, s.owner o = some k → k < s.made

variable {s : DialogueState Client}

/-- The next socket has no handler. -/
theorem Numbered.handler_free (hs : s.Numbered) : s.owner (.handler s.made) = none := by
  by_contra hhad
  obtain ⟨k, hk⟩ := Option.ne_none_iff_exists'.mp hhad
  have hlt := hs.owned hk
  have hown : (if (s.handler s.made).active then some s.made else none) = some k := hk
  cases hactive : (s.handler s.made).active with
  | false => simp [hactive] at hown
  | true =>
      simp only [hactive, if_true, Option.some.injEq] at hown
      rw [← hown] at hlt
      exact lt_irrefl _ hlt

theorem owner_serverAt (pc : ListenPc) [DecidableEq Client] :
    (s.serverAt pc).owner = Function.update s.owner .server pc.serverFd := by
  funext o
  cases o with
  | client c => rfl
  | server => rfl
  | handler k => rfl

theorem owner_exit :
    s.exit.1.owner = fun o => if o.ofServer then none else s.owner o := by
  funext o
  cases o with
  | client c => rfl
  | server => rfl
  | handler k => rfl

/-- The sockets that are closed when the server ends are its own. -/
theorem serverSockets_owned {k : Socket} (hk : k ∈ s.serverSockets) :
    ∃ o, SocketOwner.ofServer o = true ∧ s.owner o = some k := by
  obtain ⟨-, hown⟩ := List.mem_filter.mp hk
  rcases (Bool.or_eq_true _ _).mp hown with hserver | hhandler
  · exact ⟨.server, rfl, of_decide_eq_true hserver⟩
  · exact ⟨.handler k, rfl, if_pos hhandler⟩

/-- They are all its own. -/
theorem mem_serverSockets (hs : s.Numbered) {o : SocketOwner Client} {k : Socket}
    (ho : o.ofServer = true) (hown : s.owner o = some k) : k ∈ s.serverSockets := by
  refine List.mem_filter.mpr ⟨List.mem_range.mpr (hs.owned hown), ?_⟩
  cases o with
  | client c => cases ho
  | server =>
      have hfd : s.server.serverFd = some k := hown
      simp [hfd]
  | handler k' =>
      have hactive : (if (s.handler k').active then some k' else none) = some k := hown
      cases hstill : (s.handler k').active with
      | false => simp [hstill] at hactive
      | true =>
          obtain rfl : k' = k := by simpa [hstill] using hactive
          simp [hstill]

variable [DecidableEq Client]

theorem owner_clientAt (c : Client) (pc : SendPc) :
    (s.clientAt c pc).owner = Function.update s.owner (.client c) pc.sock := by
  funext o
  cases o with
  | client c' =>
      by_cases hsame : c' = c
      · subst hsame
        simp [owner, clientAt]
      · have hother : SocketOwner.client c' ≠ .client c := by simpa using hsame
        rw [Function.update_of_ne hother]
        simp [owner, clientAt, Function.update_of_ne hsame]
  | server => rfl
  | handler k => rfl

theorem owner_handlerAt (k : Socket) (pc : HandlerPc) :
    (s.handlerAt k pc).owner =
      Function.update s.owner (.handler k) (if pc.active then some k else none) := by
  funext o
  cases o with
  | client c => rfl
  | server => rfl
  | handler k' =>
      by_cases hsame : k' = k
      · subst hsame
        simp [owner, handlerAt]
      · have hother : (SocketOwner.handler k' : SocketOwner Client) ≠ .handler k := by
          simpa using hsame
        rw [Function.update_of_ne hother]
        simp [owner, handlerAt, Function.update_of_ne hsame]

end DialogueState

/-! ## What a step does with the sockets -/

/-- What a step does to the owners, and to the number of sockets. -/
structure SocketMove [DecidableEq Client] (s s' : DialogueState Client)
    (es : List DialogueEvent) (kept : Prop) : Prop where
  move : OwnerMove s.owner s'.owner (es.filterMap DialogueEvent.socket?) kept
  numbered : ∀ k, .opened k ∈ es.filterMap DialogueEvent.socket? → k = s.made ∧ k < s'.made
  grows : s.made ≤ s'.made

section Moves

variable [DecidableEq Client] {s s' : DialogueState Client} {es : List DialogueEvent}

/-- A step that only uses sockets. -/
theorem socketMove_uses (hes : UsesOwned s.owner (es.filterMap DialogueEvent.socket?))
    (howner : s'.owner = s.owner) (hmade : s'.made = s.made) : SocketMove s s' es True where
  move := by
    rw [howner]
    exact .uses hes
  numbered k hk := by
    obtain ⟨o, k', -, heq⟩ := hes _ hk
    cases heq
  grows := hmade.ge

/-- A step that makes a socket. -/
theorem socketMove_opens {o : SocketOwner Client} {u : List (HandleEvent Socket)}
    (hes : es.filterMap DialogueEvent.socket? = u ++ [.opened s.made])
    (huses : UsesOwned s.owner u)
    (howner : s'.owner = Function.update s.owner o (some s.made)) (hmade : s'.made = s.made + 1) :
    SocketMove s s' es (s.owner o = none) where
  move := by
    rw [howner, hes]
    exact .opens huses
  numbered k hk := by
    rw [hes, List.mem_append, List.mem_singleton] at hk
    rcases hk with hused | hnew
    · obtain ⟨o, k', -, heq⟩ := huses _ hused
      cases heq
    · cases hnew
      exact ⟨rfl, by omega⟩
  grows := by omega

/-- A step that closes a socket. -/
theorem socketMove_closes {o : SocketOwner Client} {k : Socket}
    (hes : es.filterMap DialogueEvent.socket? = [.released k]) (ho : s.owner o = some k)
    (howner : s'.owner = Function.update s.owner o none) (hmade : s'.made = s.made) :
    SocketMove s s' es True where
  move := by
    rw [howner, hes]
    exact .release ho
  numbered k' hk' := by
    rw [hes, List.mem_singleton] at hk'
    cases hk'
  grows := hmade.ge

/-- A step that forgets a socket. -/
theorem socketMove_forgets {o : SocketOwner Client} {k : Socket}
    (hes : UsesOwned s.owner (es.filterMap DialogueEvent.socket?)) (ho : s.owner o = some k)
    (howner : s'.owner = Function.update s.owner o none) (hmade : s'.made = s.made) :
    SocketMove s s' es False where
  move := by
    rw [howner]
    exact .forgets hes ho
  numbered k' hk' := by
    obtain ⟨o, k', -, heq⟩ := hes _ hk'
    cases heq
  grows := hmade.ge

/-- The end of the server. -/
theorem exit_move (s : DialogueState Client) :
    SocketMove s s.exit.1 s.exit.2
      (∀ o k, SocketOwner.ofServer o = true → s.owner o = some k → k ∈ s.serverSockets) := by
  have hevents : s.exit.2.filterMap DialogueEvent.socket? = s.serverSockets.map .released := by
    show (s.serverSockets.map fun k => DialogueEvent.socket (.released k)).filterMap
      DialogueEvent.socket? = s.serverSockets.map .released
    rw [List.filterMap_map]
    exact List.filterMap_eq_map ▸ rfl
  refine ⟨?_, fun k hk => ?_, le_refl _⟩
  · rw [hevents, DialogueState.owner_exit]
    exact .releases (List.nodup_range.filter _) fun k hk => DialogueState.serverSockets_owned hk
  · rw [hevents] at hk
    obtain ⟨k', -, heq⟩ := List.mem_map.mp hk
    cases heq

/-- A step that forgets no socket, and one of those that would. -/
def Keeps (s : DialogueState Client) (a : DialogueAction Client) (s' : DialogueState Client)
    (es : List DialogueEvent) : Prop :=
  ∃ kept, SocketMove s s' es kept ∧ (s.Numbered → (kept ↔ s.keepsSocket a = true))

theorem keeps_uses {a : DialogueAction Client} (hkeeps : s.keepsSocket a = true)
    (h : SocketMove s s' es True) : Keeps s a s' es :=
  ⟨True, h, fun _ => iff_of_true trivial hkeeps⟩

/-- The owners do not change where one has the same socket as before. -/
theorem owner_same {o : SocketOwner Client} {x : Option Socket} (h : s.owner o = x) :
    Function.update s.owner o x = s.owner := by
  rw [← h]
  exact Function.update_eq_self o s.owner

/-- A call of `send_command`. -/
theorem sendStep_move {c : Client} {ok : Bool} {count : Nat}
    (h : s.sendStep c ok count = some (s', es)) : Keeps s (.client c ok count) s' es := by
  unfold DialogueState.sendStep at h
  have howner : s.owner (.client c) = (s.client c).sock := rfl
  cases hpc : s.client c with
  | idle =>
      rw [hpc] at h
      cases h
  | socket command =>
      simp only [hpc] at h
      rw [hpc] at howner
      have hkeeps : s.keepsSocket (.client c ok count) = true := by
        simp only [DialogueState.keepsSocket, hpc]
      cases ok with
      | true =>
          cases h
          have hafter := DialogueState.owner_clientAt (s := s) c (.inetPton command s.made)
          exact ⟨_, socketMove_opens (u := []) rfl usesOwned_nil hafter rfl,
            fun _ => iff_of_true howner hkeeps⟩
      | false =>
          cases h
          refine keeps_uses hkeeps (socketMove_uses usesOwned_nil ?_ rfl)
          rw [DialogueState.owner_clientAt]
          exact owner_same howner
  | inetPton command sock =>
      simp only [hpc] at h
      cases h
      rw [hpc] at howner
      have hkeeps : s.keepsSocket (.client c ok count) = ok := by
        simp only [DialogueState.keepsSocket, hpc]
      cases ok with
      | true =>
          refine keeps_uses hkeeps (socketMove_uses usesOwned_nil ?_ rfl)
          rw [DialogueState.owner_clientAt]
          exact owner_same howner
      | false =>
          refine ⟨_, socketMove_forgets usesOwned_nil howner ?_ rfl, fun _ => ?_⟩
          · exact DialogueState.owner_clientAt c _
          · exact iff_of_false id (by simp [hkeeps])
  | connect command sock =>
      simp only [hpc] at h
      rw [hpc] at howner
      have hkeeps : s.keepsSocket (.client c ok count) = ok := by
        simp only [DialogueState.keepsSocket, hpc]
      cases ok with
      | true =>
          cases hlistening : s.listening with
          | false => simp [hlistening] at h
          | true =>
              simp only [hlistening, if_true] at h
              cases h
              refine keeps_uses hkeeps (socketMove_uses (usesOwned_one howner) ?_ rfl)
              have hafter := DialogueState.owner_clientAt (s := s) c
                (.send command sock s.connected)
              exact hafter.trans (owner_same howner)
      | false =>
          cases h
          refine ⟨_, socketMove_forgets (usesOwned_one howner) howner ?_ rfl, fun _ => ?_⟩
          · exact DialogueState.owner_clientAt c _
          · exact iff_of_false id (by simp [hkeeps])
  | send command sock n =>
      simp only [hpc] at h
      cases h
      rw [hpc] at howner
      have hkeeps : s.keepsSocket (.client c ok count) = true := by
        simp only [DialogueState.keepsSocket, hpc]
      refine keeps_uses hkeeps (socketMove_uses (usesOwned_one howner) ?_ rfl)
      exact (DialogueState.owner_clientAt c (.close sock n)).trans (owner_same howner)
  | close sock n =>
      simp only [hpc] at h
      cases h
      rw [hpc] at howner
      have hkeeps : s.keepsSocket (.client c ok count) = true := by
        simp only [DialogueState.keepsSocket, hpc]
      refine keeps_uses hkeeps (socketMove_closes rfl howner ?_ rfl)
      exact DialogueState.owner_clientAt c .idle

/-- The end of the server forgets nothing. -/
theorem exit_keeps {a : DialogueAction Client} (hkeeps : s.keepsSocket a = true)
    (h : some s.exit = some (s', es)) : Keeps s a s' es := by
  cases h
  refine ⟨_, exit_move s, fun hs => iff_of_true (fun o k ho hown => ?_) hkeeps⟩
  exact DialogueState.mem_serverSockets hs ho hown

/-- `start_server` goes on with the socket that it has. -/
theorem serverAt_keeps {a : DialogueAction Client} {pc : ListenPc} {x : Option Socket}
    (hkeeps : s.keepsSocket a = true) (hown : s.owner .server = x) (hpc : pc.serverFd = x)
    (hes : UsesOwned s.owner (es.filterMap DialogueEvent.socket?)) :
    Keeps s a (s.serverAt pc) es := by
  refine keeps_uses hkeeps (socketMove_uses hes ?_ rfl)
  rw [DialogueState.owner_serverAt, hpc]
  exact owner_same hown

/-- A call of `start_server`. -/
theorem listenStep_move {ok zero : Bool} (h : s.listenStep ok zero = some (s', es)) :
    Keeps s (.server ok zero) s' es := by
  unfold DialogueState.listenStep at h
  have hkeeps : s.keepsSocket (.server ok zero) = true := rfl
  have howner : s.owner .server = s.server.serverFd := rfl
  cases hpc : s.server with
  | socket =>
      simp only [hpc] at h
      rw [hpc] at howner
      cases ok with
      | true =>
          cases h
          have hfd : ListenPc.serverFd (if zero then .failure (some s.made)
              else .setsockopt (some s.made)) = some s.made := by
            cases zero <;> rfl
          have hafter := DialogueState.owner_serverAt (s := s)
            (if zero then .failure (some s.made) else .setsockopt (some s.made))
          rw [hfd] at hafter
          exact ⟨_, socketMove_opens (u := []) rfl usesOwned_nil hafter rfl,
            fun _ => iff_of_true howner hkeeps⟩
      | false =>
          cases h
          exact serverAt_keeps hkeeps howner rfl usesOwned_nil
  | setsockopt serverFd =>
      rw [hpc] at howner
      cases serverFd with
      | none =>
          simp only [hpc] at h
          cases h
          exact serverAt_keeps hkeeps howner rfl usesOwned_nil
      | some fd =>
          simp only [hpc] at h
          cases h
          exact serverAt_keeps hkeeps howner (by cases ok <;> rfl) (usesOwned_one howner)
  | bind fd =>
      simp only [hpc] at h
      rw [hpc] at howner
      cases h
      exact serverAt_keeps hkeeps howner (by cases ok <;> rfl) (usesOwned_one howner)
  | listen fd =>
      simp only [hpc] at h
      rw [hpc] at howner
      cases ok with
      | true =>
          cases h
          refine keeps_uses hkeeps (socketMove_uses (usesOwned_one howner) ?_ rfl)
          have hafter := DialogueState.owner_serverAt (s := s) (.accept fd)
          exact hafter.trans (owner_same howner)
      | false =>
          cases h
          exact serverAt_keeps hkeeps howner rfl (usesOwned_one howner)
  | accept fd =>
      simp only [hpc] at h
      rw [hpc] at howner
      cases ok with
      | true =>
          cases hpending : s.pending with
          | nil => simp [hpending] at h
          | cons n rest =>
              simp only [hpending, if_true] at h
              cases h
              have hafter := DialogueState.owner_handlerAt (s := s) s.made (.read n)
              exact ⟨_, socketMove_opens rfl (usesOwned_one howner) hafter rfl,
                fun hs => iff_of_true hs.handler_free hkeeps⟩
      | false =>
          cases h
          exact serverAt_keeps hkeeps howner rfl (usesOwned_one howner)
  | failure serverFd =>
      simp only [hpc] at h
      exact exit_keeps hkeeps h
  | ended =>
      simp only [hpc] at h
      cases h

/-- What a handler does after its `read` is done with its socket. -/
theorem afterRead_active (n : Nat) (text : List UInt8) :
    (HandlerPc.afterRead n text).active = true := by
  unfold HandlerPc.afterRead
  cases Server.acceptedCommand text with
  | none => rfl
  | some p => rfl

/-- A call of `handle_client`. -/
theorem handlerStep_move {sock : Socket} {ok : Bool} {count : Nat} {beyond : List UInt8}
    (h : s.handlerStep sock ok count beyond = some (s', es)) :
    Keeps s (.handler sock ok count beyond) s' es := by
  unfold DialogueState.handlerStep at h
  have hkeeps : s.keepsSocket (.handler sock ok count beyond) = true := rfl
  have howner : s.owner (.handler sock) = if (s.handler sock).active then some sock else none :=
    rfl
  -- A handler that goes on has its socket still.
  have hstays : ∀ {pc : HandlerPc}, pc.active = true → s.owner (.handler sock) = some sock →
      (s.handlerAt sock pc).owner = s.owner := by
    intro pc hactive hown
    rw [DialogueState.owner_handlerAt, if_pos hactive]
    exact owner_same hown
  cases hpc : s.handler sock with
  | absent =>
      rw [hpc] at h
      cases h
  | returned n =>
      rw [hpc] at h
      cases h
  | read n =>
      simp only [hpc] at h
      rw [hpc] at howner
      cases ok with
      | true =>
          cases hyields : (s.connection n).yields count with
          | false => simp [hyields] at h
          | true =>
              simp only [hyields, if_true] at h
              cases h
              exact keeps_uses hkeeps (socketMove_uses (usesOwned_one howner)
                (hstays (afterRead_active n _) howner) rfl)
      | false =>
          cases h
          exact keeps_uses hkeeps (socketMove_uses (usesOwned_one howner)
            (hstays (afterRead_active n _) howner) rfl)
  | addTask n command value =>
      simp only [hpc] at h
      rw [hpc] at howner
      cases ok with
      | true =>
          cases h
          exact keeps_uses hkeeps (socketMove_uses usesOwned_nil (hstays rfl howner) rfl)
      | false => exact exit_keeps hkeeps h
  | close n =>
      simp only [hpc] at h
      rw [hpc] at howner
      cases h
      have hafter := DialogueState.owner_handlerAt (s := s) sock (.returned n)
      exact keeps_uses hkeeps (socketMove_closes rfl howner hafter rfl)

/-- Any step. -/
theorem next_move {a : DialogueAction Client} (h : s.next a = some (s', es)) :
    Keeps s a s' es := by
  cases a with
  | enter c line =>
      have howner : s.owner (.client c) = (s.client c).sock := rfl
      cases hpc : s.client c with
      | idle =>
          simp only [DialogueState.next, hpc] at h
          rw [hpc] at howner
          cases h
          refine keeps_uses rfl (socketMove_uses usesOwned_nil ?_ rfl)
          have hsock : SendPc.sock (if line.isEmpty then .idle else .socket line) = none := by
            cases line.isEmpty <;> rfl
          rw [DialogueState.owner_clientAt, hsock]
          exact owner_same howner
      | socket command => simp [DialogueState.next, hpc] at h
      | inetPton command sock => simp [DialogueState.next, hpc] at h
      | connect command sock => simp [DialogueState.next, hpc] at h
      | send command sock n => simp [DialogueState.next, hpc] at h
      | close sock n => simp [DialogueState.next, hpc] at h
  | client c ok count => exact sendStep_move h
  | server ok zero => exact listenStep_move h
  | handler sock ok count beyond => exact handlerStep_move h
  | terminate => exact exit_keeps rfl h

end Moves

/-! ## Runs -/

section Runs

variable (Client) [DecidableEq Client]

/-- What is done with the sockets. -/
def socketMachine : Machine (DialogueState Client) (DialogueAction Client) (HandleEvent Socket) :=
  (dialogueMachine Client).watch fun _ _ es => es.filterMap DialogueEvent.socket?

variable {Client}

/-- A step is one that the kernel notes. -/
theorem socketMachine_step {s s' : DialogueState Client} {a : DialogueAction Client}
    {hs : List (HandleEvent Socket)} (h : (socketMachine Client).step s a = some (s', hs)) :
    ∃ after es, s.next a = some (after, es) ∧ hs = es.filterMap DialogueEvent.socket? ∧
      s' = { after with status := statusAfter s.status hs } := by
  obtain ⟨es, hstep, rfl⟩ := watch_step h
  obtain ⟨⟨after, es'⟩, hnext, heq⟩ := Option.map_eq_some_iff.mp hstep
  cases heq
  exact ⟨after, _, hnext, rfl, rfl⟩

/-- **Every socket has one owner**, a call that has not returned. -/
def socketOwnership (Client : Type*) [DecidableEq Client] :
    Ownership (socketMachine Client) (SocketOwner Client) where
  owner := DialogueState.owner
  status := DialogueState.status
  ready := DialogueState.Numbered
  keeps := DialogueState.keepsSocket
  ready_step := by
    intro s a s' hs hready hstep
    obtain ⟨after, es, hnext, rfl, rfl⟩ := socketMachine_step hstep
    obtain ⟨kept, hmove, -⟩ := next_move hnext
    refine ⟨fun k hk => ?_, fun {o k} ho => ?_⟩
    · have hfresh : s.made ≤ k := le_trans hmove.grows hk
      have hnone : ∀ e ∈ es.filterMap DialogueEvent.socket?, e.handle ≠ k := by
        rintro e he rfl
        rcases hmove.move.touches he with ⟨o, ho⟩ | hnew
        · exact absurd (hready.owned ho) (not_lt.mpr hfresh)
        · exact absurd (hmove.numbered _ hnew).2 (not_lt.mpr hk)
      exact (statusAfter_untouched hnone).trans (hready.unopened k hfresh)
    · rcases hmove.move.owns ho with hbefore | hnew
      · exact lt_of_lt_of_le (hready.owned hbefore) hmove.grows
      · exact (hmove.numbered k hnew).2
  status_step := by
    intro s a s' hs hstep
    obtain ⟨after, es, hnext, rfl, rfl⟩ := socketMachine_step hstep
    rfl
  move := by
    intro s a s' hs hstep
    obtain ⟨after, es, hnext, rfl, rfl⟩ := socketMachine_step hstep
    obtain ⟨kept, hmove, hkept⟩ := next_move hnext
    exact ⟨kept, hmove.move, hkept⟩
  fresh := by
    intro s a s' hs hready hstep k hk
    obtain ⟨after, es, hnext, rfl, rfl⟩ := socketMachine_step hstep
    obtain ⟨kept, hmove, -⟩ := next_move hnext
    rw [(hmove.numbered k hk).1]
    exact hready.unopened s.made (le_refl _)

omit [DecidableEq Client] in
/-- At first there are no sockets. -/
theorem begin_owner (o : SocketOwner Client) : (DialogueState.begin Client).owner o = none := by
  cases o with
  | client c => rfl
  | server => rfl
  | handler k => rfl

omit [DecidableEq Client] in
theorem begin_numbered : (DialogueState.begin Client).Numbered where
  unopened := fun _ _ => rfl
  owned := by
    intro o k ho
    rw [begin_owner] at ho
    cases ho

/-- **Sockets.**  Whatever fails, none is used or closed when it is not open.
Where every call has returned, each has been closed once exactly if `inet_pton`
and `connect` have never failed. -/
theorem sockets_closed_once {schedule : List (DialogueAction Client)} {s : DialogueState Client}
    {es : List (HandleEvent Socket)}
    (h : exec (socketMachine Client) (.begin Client) schedule = some (s, es)) :
    (∀ k, statusAfter (fun _ => .unopened) es k ≠ .misused) ∧
      ((∀ o, s.owner o = none) →
        ((∀ k, .opened k ∈ es → LivesOnce es k) ↔
          along (socketMachine Client) DialogueState.keepsSocket (.begin Client) schedule =
            true)) :=
  ⟨(socketOwnership Client).never_misused begin_numbered (fun _ => rfl) begin_owner (exec_run h),
    (socketOwnership Client).lives_once_iff_keeps begin_numbered (fun _ => rfl) begin_owner h⟩

end Runs

/-- A command is sent and handled, and the server ends. -/
def handledCommand : List (DialogueAction Unit) :=
  [.server true false, .server true false, .server true false, .server true false,
    .enter () (textBytes "mul 3 4"), .client () true 0, .client () true 0, .client () true 0,
    .server true false, .client () true 7, .client () true 0, .handler 2 true 7 [],
    .handler 2 true 0 [], .handler 2 true 0 [], .terminate]

theorem handledCommand_executes :
    (exec (socketMachine Unit) (.begin Unit) handledCommand).isSome = true := by rfl

theorem sockets_closed_once_handled :
    LivesOnce ((exec (socketMachine Unit) (.begin Unit) handledCommand).get
      handledCommand_executes).2 1 := by
  refine ((sockets_closed_once (exec_get handledCommand_executes)).2 fun o => ?_).mpr rfl 1
    (by decide)
  cases o with
  | client c => rfl
  | server => rfl
  | handler k => rfl

end TaskSheduler
