import QuantaStream.MySQL.Session

/-!
# Commands come after a login

A record of a session keeps what its authenticator decided and which commands its handler got, in
their order.  Recording is done by wrappers around the authenticator and the handler and changes
nothing else.  Whatever the transport delivers and in whichever order the runner is called, a
command in the record comes after an accepted decision and carries its identity.
-/

namespace QuantaStream.MySQL

open List SessionRunner Option Connection

variable {ω : Type*}

/-! ## The record of a session -/

/-- What is recorded: a decision of the authenticator, a command the handler got. -/
inductive Event where
  | decided (request : AuthRequest) (decision : AuthDecision)
  | handled (command : Command)

variable (stream : PacketReadWriter ω)

def PacketReadWriter.recorded : PacketReadWriter (ω × List Event) where
  readPacket w := ((stream.readPacket w.1).1, (stream.readPacket w.1).2, w.2)
  writePacket packet w := ((stream.writePacket packet w.1).1, (stream.writePacket packet w.1).2, w.2)

def decisionEvents (request : AuthRequest) : Except GoString AuthDecision → List Event
  | .error _ => []
  | .ok decision => [.decided request decision]

/-- An authenticator that records its decisions. -/
def Authenticator.recorded (authenticate : Authenticator ω) : Authenticator (ω × List Event) :=
  fun request w =>
    let answer := authenticate request w.1
    (answer.1, answer.2, w.2 ++ decisionEvents request answer.1)

def CommandHandler.recorded (handle : CommandHandler ω) : CommandHandler (ω × List Event) :=
  fun command w => ((handle command w.1).1, (handle command w.1).2, w.2 ++ [.handled command])

def SessionRunner.recorded (r : SessionRunner ω) : SessionRunner (ω × List Event) where
  connection := r.connection
  handshake := r.handshake
  stream := r.stream.map PacketReadWriter.recorded
  handler := r.handler.map CommandHandler.recorded
  authenticator := some (Authenticator.recorded (r.authenticator.getD permissiveAuthenticator))

/-- What a recorded call leaves without its record. -/
def Reply.erase {α : Type*} (reply : Reply (ω × List Event) α) : Reply ω α :=
  ⟨reply.result, reply.connection, reply.world.1⟩

theorem writeResponsePackets_recorded (packets : List Packet) (w : ω × List Event) :
    writeResponsePackets stream.recorded packets w =
      ((writeResponsePackets stream packets w.1).1, (writeResponsePackets stream packets w.1).2,
        w.2) := by
  induction packets generalizing w with
  | nil => rfl
  | cons packet packets ih =>
    simp only [writeResponsePackets, PacketReadWriter.recorded]
    rcases hwrite : stream.writePacket packet w.1 with ⟨result, w'⟩
    cases result with
    | error e => rfl
    | ok _ => exact ih (w', w.2)

/-! ## What a call adds to the record -/

variable (r : SessionRunner ω) (w : ω × List Event)

theorem sendHandshake_recorded :
    (sendHandshake r.recorded w).erase = sendHandshake r w.1 ∧
      (sendHandshake r.recorded w).world.2 = w.2 := by
  simp only [sendHandshake, recorded]
  cases r.stream with
  | none => exact ⟨rfl, rfl⟩
  | some stream =>
    cases r.handshake.payload with
    | error e => exact ⟨rfl, rfl⟩
    | ok payload =>
      cases r.connection.withHandshakeSent with
      | error e => exact ⟨rfl, rfl⟩
      | ok connection =>
        simp only [map_some, PacketReadWriter.recorded]
        rcases stream.writePacket ⟨0, payload⟩ w.1 with ⟨result, w'⟩
        cases result <;> exact ⟨rfl, rfl⟩

/-- After the handshake was sent, or not, no command is accepted that was not before. -/
theorem sendHandshake_connection (w : ω) :
    (sendHandshake r w).connection = r.connection ∨
      (sendHandshake r w).connection.state = .handshakeSent := by
  fun_cases sendHandshake r w
  case case5 stream hstream payload hpayload connection hsent _ w' hwritten =>
    right
    unfold withHandshakeSent at hsent
    split at hsent
    · cases hsent
    · obtain rfl := Except.ok.inj hsent
      rfl
  all_goals exact .inl rfl

/-- A decision is concluded without a further entry in the record. -/
theorem concludeAuthentication_recorded (current pending : Connection) (sequenceID : UInt8)
    (decision : AuthDecision) (w : ω × List Event) :
    (concludeAuthentication stream.recorded current pending sequenceID decision w).erase =
        concludeAuthentication stream current pending sequenceID decision w.1 ∧
      (concludeAuthentication stream.recorded current pending sequenceID decision w).world.2 =
        w.2 := by
  unfold concludeAuthentication
  simp only [writeResponsePackets_recorded]
  split
  · split
    · exact ⟨rfl, rfl⟩
    next connection authOK _ =>
      rcases writeResponsePackets stream
        (clonePacketsWithSequence authOK.packets (sequenceID + 1)) w.1 with ⟨result, w'⟩
      cases result <;> exact ⟨rfl, rfl⟩
  · rcases writeResponsePackets stream (clonePacketsWithSequence
      (errorResponse decision.failure).packets (sequenceID + 1)) w.1 with ⟨result, w'⟩
    cases result <;> exact ⟨rfl, rfl⟩

/-- The connection has the identity of an accepted decision. -/
def Carries (c : Connection) (request : AuthRequest) (decision : AuthDecision) : Prop :=
  decision.accepted = true ∧ request.connectionID = c.id ∧ c.username = decision.username ∧
    c.database = decision.database ∧ c.roles = decision.roles

/-- After a decision the connection is the one before, waits for ever, or carries the decision. -/
theorem concludeAuthentication_connection (current pending : Connection)
    (hpending : pending.state = .authPending) (sequenceID : UInt8) {request : AuthRequest}
    (hrequest : request.connectionID = pending.id) (decision : AuthDecision) (w : ω)
    (c : Connection)
    (hc : (concludeAuthentication stream current pending sequenceID decision w).connection = c) :
    c = current ∨ c.state = .authPending ∨ Carries c request decision := by
  subst hc
  fun_cases concludeAuthentication stream current pending sequenceID decision w
  case case3 haccepted _ connection authOK hauth _ _ _ _ =>
    rw [acceptPermissiveAuth, if_neg (not_not.mpr hpending)] at hauth
    cases hauth
    exact .inr (.inr ⟨haccepted, hrequest, rfl, rfl, rfl⟩)
  case case5 => exact .inr (.inl hpending)
  all_goals exact .inl rfl

theorem acceptHandshakeResponse_recorded :
    (acceptHandshakeResponse r.recorded w).erase = acceptHandshakeResponse r w.1 := by
  unfold acceptHandshakeResponse
  simp only [recorded]
  cases r.stream with
  | none => rfl
  | some stream =>
    simp only [map_some, PacketReadWriter.recorded]
    rcases stream.readPacket w.1 with ⟨result, w'⟩
    cases result with
    | error e => rfl
    | ok packet =>
      dsimp only
      cases decodeHandshakeResponse41 packet.payload with
      | error e => rfl
      | ok response =>
        dsimp only
        cases r.connection.acceptHandshakeResponse (defaultPluginOf r.handshake response) with
        | error e => rfl
        | ok connection =>
          simp only [getD_some, Authenticator.recorded]
          rcases r.authenticator.getD permissiveAuthenticator (authRequestFromHandshake
            connection (defaultPluginOf r.handshake response) r.handshake.authPluginData) w'
            with ⟨answer, w''⟩
          cases answer with
          | error e => rfl
          | ok decision => exact (concludeAuthentication_recorded stream _ _ _ _ _).1

/-- A login adds at most a decision to the record, and it does so only on a connection that has
sent its handshake and not yet seen a decision take effect. -/
theorem acceptHandshakeResponse_events {reply : Reply (ω × List Event) CommandResponse}
    (hreply : acceptHandshakeResponse r.recorded w = reply) :
    (reply.connection = r.connection ∧ reply.world.2 = w.2) ∨
      (r.connection.state = .handshakeSent ∧ ∃ request decision,
        reply.world.2 = w.2 ++ [.decided request decision] ∧
        (reply.connection = r.connection ∨ reply.connection.state = .authPending ∨
          Carries reply.connection request decision)) := by
  subst hreply
  have hread {stream : PacketReadWriter (ω × List Event)} {result w'}
      (hstream : r.recorded.stream = some stream) (hread : stream.readPacket w = (result, w')) :
      w'.2 = w.2 := by
    obtain ⟨stream, -, rfl⟩ := map_eq_some_iff.mp hstream
    exact (congrArg (fun p => p.2.2) hread).symm
  have hdecided {request answer w' w''} (hanswer : r.recorded.authenticator.getD
      permissiveAuthenticator request w' = (answer, w'')) :
        w''.2 = w'.2 ++ decisionEvents request answer := by
    cases hanswer
    rfl
  fun_cases acceptHandshakeResponse r.recorded w
  case case1 => exact .inl ⟨rfl, rfl⟩
  case case5 => exact .inl ⟨rfl, by simp [hdecided ‹_›, decisionEvents, hread ‹_› ‹_›]⟩
  case case6 stream hstream _ _ _ _ _ _ _ hpending _ request decision _ hanswer =>
    unfold Connection.acceptHandshakeResponse at hpending
    split at hpending
    · cases hpending
    next hstate =>
      obtain rfl := Except.ok.inj hpending
      obtain ⟨stream, -, rfl⟩ := map_eq_some_iff.mp hstream
      refine .inr ⟨not_not.mp hstate, request, decision, ?_, ?_⟩
      · rw [(concludeAuthentication_recorded stream _ _ _ _ _).2, hdecided hanswer,
          hread ‹_› ‹_›]
        rfl
      · exact concludeAuthentication_connection stream.recorded _ _ rfl _ rfl _ _ _ rfl
  all_goals exact .inl ⟨rfl, hread ‹_› ‹_›⟩

/-- The command of a payload, as the handler gets it. -/
def commandEvents (c : Connection) (payload : GoString) : List Event :=
  match decodeCommand payload with
  | .error _ => []
  | .ok command => [.handled (command.onConnection c)]

/-- The command the handler gets from the next packet, if any. -/
def servedEvents (c : Connection) (w : ω) : List Event :=
  match (stream.readPacket w).1 with
  | .error _ => []
  | .ok packet => commandEvents c packet.payload

/-- A recorded command is served as the command is, and is what the record gains. -/
theorem serveNext_recorded (handle : CommandHandler ω) (c : Connection) (w : ω × List Event) :
    serveNext stream.recorded (CommandHandler.recorded handle) c w =
      ((serveNext stream handle c w.1).1, (serveNext stream handle c w.1).2,
        w.2 ++ servedEvents stream c w.1) := by
  have hread : stream.recorded.readPacket w =
    ((stream.readPacket w.1).1, (stream.readPacket w.1).2, w.2) := rfl
  simp only [serveNext, servedEvents, commandEvents, hread, writeResponsePackets_recorded,
    CommandHandler.recorded]
  rcases stream.readPacket w.1 with ⟨result, w'⟩
  cases result with
  | error e => simp
  | ok packet =>
    dsimp only
    cases decodeCommand packet.payload with
    | error e =>
      dsimp only
      rcases writeResponsePackets stream (errorResponseFromError e).packets w' with ⟨result, w''⟩
      cases result <;> simp
    | ok command =>
      dsimp only
      generalize CommandResponse.withCapabilities _ _ = response
      rcases writeResponsePackets stream response.packets (handle _ w').2 with ⟨result, w''⟩
      cases result <;> rfl

theorem serveNextCommand_recorded :
    (serveNextCommand r.recorded w).erase = serveNextCommand r w.1 := by
  unfold serveNextCommand
  simp only [recorded]
  cases r.stream with
  | none => rfl
  | some stream =>
    cases r.handler with
    | none => rfl
    | some handle =>
      simp only [map_some, serveNext_recorded]
      split
      · rcases serveNext stream handle r.connection w.1 with ⟨result, w'⟩
        cases result <;> rfl
      · rfl

/-- Serving a command adds at most a command to the record, and only on a connection that is
ready; the command has the identity of the connection. -/
theorem serveNextCommand_events {reply : Reply (ω × List Event) CommandResponse}
    (hreply : serveNextCommand r.recorded w = reply) :
    (reply.connection = r.connection ∨ reply.connection.state = .closing) ∧
      (reply.world.2 = w.2 ∨ (r.connection.state = .ready ∧ ∃ command : Command,
        reply.world.2 = w.2 ++ [.handled (command.onConnection r.connection)])) := by
  subst hreply
  unfold serveNextCommand
  simp only [recorded]
  cases r.stream with
  | none => exact ⟨.inl rfl, .inl rfl⟩
  | some stream =>
    cases r.handler with
    | none => exact ⟨.inl rfl, .inl rfl⟩
    | some handle =>
      simp only [map_some, serveNext_recorded]
      split
      next hready =>
        have hevents : ∀ {reply : List Event}, reply = w.2 ++ servedEvents stream r.connection w.1 →
            reply = w.2 ∨ (r.connection.state = .ready ∧ ∃ command : Command,
              reply = w.2 ++ [.handled (command.onConnection r.connection)]) := by
          rintro _ rfl
          unfold servedEvents
          split
          · exact .inl (append_nil _)
          · unfold commandEvents
            split
            · exact .inl (append_nil _)
            next command _ => exact .inr ⟨of_decide_eq_true hready, command, rfl⟩
        rcases serveNext stream handle r.connection w.1 with ⟨result, w'⟩
        cases result with
        | error e => exact ⟨.inl rfl, hevents rfl⟩
        | ok response =>
          refine ⟨?_, hevents rfl⟩
          dsimp only
          split
          · exact .inr rfl
          · exact .inl rfl
      · exact ⟨.inl rfl, .inl rfl⟩

theorem serveCommands_recorded (n : ℕ) (r : SessionRunner ω) (w : ω × List Event) :
    (serveCommands n r.recorded w).erase = serveCommands n r w.1 := by
  induction n generalizing r w with
  | zero => rfl
  | succ n ih =>
    have hcommand := serveNextCommand_recorded r w
    simp only [serveCommands, ← hcommand, Reply.erase]
    cases (serveNextCommand r.recorded w).result with
    | error e => rfl
    | ok response =>
      dsimp only
      split
      · rfl
      · exact ih { r with connection := (serveNextCommand r.recorded w).connection } _

theorem serve_recorded (n : ℕ) (r : SessionRunner ω) (w : ω × List Event) :
    (serve n r.recorded w).erase = serve n r w.1 := by
  have hsent := (sendHandshake_recorded r w).1
  simp only [serve, ← hsent, Reply.erase]
  cases (sendHandshake r.recorded w).result with
  | error e => rfl
  | ok _ =>
    generalize (sendHandshake r.recorded w).connection = c
    generalize (sendHandshake r.recorded w).world = w'
    have hauth := acceptHandshakeResponse_recorded { r with connection := c } w'
    have hrunner : ({ r with connection := c } : SessionRunner ω).recorded =
      { r.recorded with connection := c } := rfl
    rw [hrunner] at hauth
    simp only [← hauth, Reply.erase]
    cases (acceptHandshakeResponse { r.recorded with connection := c } w').result with
    | error e => rfl
    | ok response =>
      dsimp only
      split
      · rfl
      · exact serveCommands_recorded n { r with connection := _ } _

/-- A recorded call does to the runner and the world what the call does. -/
theorem recorded_callStep (call : Call) :
    (callStep (r.recorded, w) call).1 = (callStep (r, w.1) call).1.recorded := by
  cases call with
  | sendHandshake =>
    simp only [callStep, ← (sendHandshake_recorded r w).1]
    rfl
  | acceptHandshakeResponse =>
    simp only [callStep, ← acceptHandshakeResponse_recorded r w]
    rfl
  | serveNextCommand =>
    simp only [callStep, ← serveNextCommand_recorded r w]
    rfl
  | serve n =>
    simp only [callStep, ← serve_recorded n r w]
    rfl

/-! ## Every command is authorized -/

variable (log : List Event)

def lastDecision : Option (AuthRequest × AuthDecision) :=
  log.foldl (fun last event =>
    match event with
    | .decided request decision => some (request, decision)
    | .handled _ => last) none

/-- The last decision accepted the connection, whose identity it is. -/
def LoggedIn (c : Connection) (log : List Event) : Prop :=
  ∃ request decision, lastDecision log = some (request, decision) ∧ Carries c request decision

/-- A command has the identity of the last decision of a record, and it was accepted on the
connection of the command. -/
def GrantedBy (command : Command) : Prop :=
  ∃ request decision, lastDecision log = some (request, decision) ∧ decision.accepted = true ∧
    request.connectionID = command.connectionID ∧ command.username = decision.username ∧
    command.database = decision.database ∧ command.roles = decision.roles

/-- Every command of a record is granted by what was recorded before it. -/
def Authorized : Prop :=
  ∀ before command after, log = before ++ .handled command :: after → GrantedBy before command

theorem authorized_nil : Authorized [] := by
  intro before command after h
  simp at h

/-- A further event keeps a record authorized if it is no command, or a granted one. -/
theorem Authorized.snoc {log : List Event} {event : Event} (hlog : Authorized log)
    (hevent : ∀ command, event = .handled command → GrantedBy log command) :
    Authorized (log ++ [event]) := by
  intro before command after h
  rcases eq_nil_or_concat after with rfl | ⟨after, last, rfl⟩
  · have hsplit := append_inj' h rfl
    rw [← hsplit.1]
    exact hevent command (List.cons.inj hsplit.2).1
  · rw [concat_eq_append, ← cons_append, ← append_assoc] at h
    exact hlog before command after (append_inj' h rfl).1

/-- What holds of a runner between calls: its record is authorized, and a connection that is ready
is logged in. -/
structure Sound (c : Connection) (log : List Event) : Prop where
  authorized : Authorized log
  loggedIn : c.state = .ready → LoggedIn c log

/-- A connection that is not ready needs no login. -/
theorem Sound.of_not_ready {c c' : Connection} {log : List Event} (h : Sound c log)
    (hstate : c'.state ≠ .ready) : Sound c' log :=
  ⟨h.authorized, fun hready => absurd hready hstate⟩

section

variable {r : SessionRunner ω} {w : ω × List Event} (h : Sound r.connection w.2)

include h

theorem Sound.sendHandshake :
    Sound (sendHandshake r.recorded w).connection (sendHandshake r.recorded w).world.2 := by
  rw [(sendHandshake_recorded r w).2]
  rcases sendHandshake_connection r.recorded w with hsame | hsent
  · rw [hsame]
    exact h
  · exact h.of_not_ready (by simp [hsent])

theorem Sound.acceptHandshakeResponse :
    Sound (acceptHandshakeResponse r.recorded w).connection
      (acceptHandshakeResponse r.recorded w).world.2 := by
  rcases acceptHandshakeResponse_events r w rfl with ⟨hsame, hlog⟩ | ⟨hstate, request, decision, hlog, hc⟩
  · rw [hsame, hlog]
    exact h
  rw [hlog]
  refine ⟨h.authorized.snoc nofun, fun hready => ?_⟩
  rcases hc with hc | hc | hc
  · rw [hc, hstate] at hready
    cases hready
  · cases hc.symm.trans hready
  · exact ⟨request, decision, by simp [lastDecision], hc⟩

theorem Sound.serveNextCommand :
    Sound (serveNextCommand r.recorded w).connection (serveNextCommand r.recorded w).world.2 := by
  have hsound : Sound r.connection (MySQL.serveNextCommand r.recorded w).world.2 := by
    rcases (serveNextCommand_events r w rfl).2 with hlog | ⟨hready, command, hlog⟩
    · rw [hlog]
      exact h
    rcases h.loggedIn hready with ⟨request, decision, hlast, hcarries⟩
    rw [hlog]
    refine ⟨h.authorized.snoc fun command' hcommand => ?_, fun _ => ?_⟩
    · obtain rfl := Event.handled.inj hcommand
      exact ⟨request, decision, hlast, hcarries⟩
    · exact ⟨request, decision, by simpa [lastDecision] using hlast, hcarries⟩
  rcases (serveNextCommand_events r w rfl).1 with hsame | hclosing
  · rw [hsame]
    exact hsound
  · exact hsound.of_not_ready (by simp [hclosing])

end

section

variable {n : ℕ} {r : SessionRunner ω} {w : ω × List Event} (h : Sound r.connection w.2)

include h

theorem Sound.serveCommands :
    Sound (serveCommands n r.recorded w).connection (serveCommands n r.recorded w).world.2 := by
  induction n generalizing r w with
  | zero => exact h
  | succ n ih =>
    have hnext := h.serveNextCommand
    simp only [MySQL.serveCommands]
    split
    · exact hnext
    · split
      · exact hnext
      · exact @ih { r with connection := (MySQL.serveNextCommand r.recorded w).connection } _ hnext

theorem Sound.serve : Sound (serve n r.recorded w).connection (serve n r.recorded w).world.2 := by
  have hsent := h.sendHandshake
  simp only [MySQL.serve]
  split
  · exact hsent
  have hauth := @Sound.acceptHandshakeResponse ω
    { r with connection := (MySQL.sendHandshake r.recorded w).connection } _ hsent
  split
  · exact hauth
  · split
    · exact hauth.of_not_ready (by simp [withClosing])
    · exact @Sound.serveCommands ω n { r with connection := _ } _ hauth

end

/-- A call keeps a runner sound. -/
theorem Sound.callStep {r : SessionRunner ω} {w : ω × List Event} (h : Sound r.connection w.2)
    (call : Call) :
    Sound (callStep (r.recorded, w) call).1.connection (callStep (r.recorded, w) call).2.2 := by
  cases call with
  | sendHandshake => exact h.sendHandshake
  | acceptHandshakeResponse => exact h.acceptHandshakeResponse
  | serveNextCommand => exact h.serveNextCommand
  | serve n => exact h.serve

/-- Whatever the transport, the authenticator and the handler do and in whichever order a runner is
called, every command the handler gets comes after a decision of the authenticator on this
connection, the last one accepted it, and the user, the database and the roles of the command are
those of that decision. -/
theorem handled_commands_authorized (mySQLVersion : GoString) (config : SessionRunnerConfig ω)
    (w : ω) (calls : List Call) :
    Authorized
      (Run.exec callStep ((newSessionRunner mySQLVersion config).recorded, (w, [])) calls).2.2 := by
  suffices hall : ∀ (r : SessionRunner ω) (w : ω × List Event), Sound r.connection w.2 →
      Authorized (Run.exec callStep (r.recorded, w) calls).2.2 from
    hall _ _ ⟨authorized_nil, fun hready => by cases hready⟩
  induction calls with
  | nil => exact fun r w h => h.authorized
  | cons call calls ih =>
    intro r w h
    have hstep := h.callStep call
    have hrunner := recorded_callStep r w call
    have hnext := ih (callStep (r, w.1) call).1 (callStep (r.recorded, w) call).2
    rw [hrunner] at hstep
    rw [← hrunner] at hnext
    exact hnext hstep

end QuantaStream.MySQL
