/-
# AntServer.Game.Client — the requests of clients in agents and hub slaves

`dispatch`, `request` and `resp_package` of `lualib/service/client.lua`, from a message that sproto has
decoded to what is sent and what is raised. An agent has called `client.init` with its socket (`_fd`), a
hub slave without one; the handlers are whatever is in the table.

A request is settled when one response was sent for it or its connection was told to close, and no
coroutine raised (`Settled`). An unknown name, a handler that raises and a message on another socket than
the agent's are only logged; a request without a session has no `response` to call; and the
`socket.close` of a hub slave does nothing for a socket that `skynet.socket` did not open in this
service. `settled_iff` says which requests are settled.
-/
import AntServer.Lib.Comp
import AntServer.Lua
import Mathlib.Data.Nat.Notation

namespace AntServer.Game.Client

open Lib (Comp)

/-! ## What a handler is -/

/-- `SYSTEM_ERROR.success`. -/
def success : Int := 0

/-- What leaves the service. -/
inductive Effect (υ : Type) where
  | sendText (fd : Int) (text : List UInt8)
  | close (fd : Int)
  | kick (uid : υ)
  deriving DecidableEq, Repr

/-- A handler: its error code and its pack, nil or not, or an error. In an agent it is not given the
socket. -/
abbrev Handler (α π : Type) := Option α → Option Int → Except LuaError (Option Int × Option π)

/-- The function that sproto makes for a request with a session: it encodes a pack and a code. -/
abbrev Response (π : Type) := π → Option Int → Except LuaError (List UInt8)

/-- The locals of the module after `client.init`, and what it uses of other modules: `{}` as a pack,
`args.uid`, `netpack.pack` of the helper, and the sockets of `skynet.socket`. -/
structure Service (α υ π : Type) where
  fd : Option Int
  handler : String → Option (Handler α π)
  noPack : π
  uid : α → υ
  netpack : List UInt8 → Except LuaError (List UInt8)
  socketPool : Int → Bool

/-- What sproto makes of a message. Arguments may be nil, and a request without a session has no
`response`. -/
inductive Message (α π : Type) where
  | request (name : String) (args : Option α) (response : Option (Response π))
  | response

/-- What came of a message: the effects, and the errors that ended a coroutine. -/
structure Dispatched (υ : Type) where
  effects : List (Effect υ)
  errors : List LuaError
  deriving DecidableEq, Repr

section

variable {α υ π : Type} (c : Service α υ π)

/-- A coroutine of the service. -/
abbrev M (υ α : Type) := Comp (List (Effect υ)) LuaError α

def perform (e : Effect υ) : M υ Unit := Comp.update fun effects => effects ++ [e]

def lift {β : Type} : Except LuaError β → M υ β
  | .ok a => return a
  | .error e => Comp.raise e

theorem lift_ok_bind {β γ : Type} (a : β) (f : β → M υ γ) : (lift (.ok a) >>= f) = f a := rfl

theorem lift_error_bind {β γ : Type} (e : LuaError) (f : β → M υ γ) (effects : List (Effect υ)) :
    (lift (.error e) >>= f) effects = some (.error e, effects) := rfl

/-! ## The handling of a request -/

/-- `helper.send_text`. -/
def sendText (fd : Int) (data : List UInt8) : M υ Unit := do
  let text ← lift (c.netpack data)
  perform (.sendText fd text)

/-- `client.resp_package`. -/
def respPackage (fd : Int) (pack : π) (ud : Option Int) : Option (Response π) → M υ Unit
  | none => Comp.raise (.call "response")
  | some response => do
    let data ← lift (response pack ud)
    sendText c fd data

/-- `socket.close`. -/
def socketClose (fd : Int) : M υ Unit :=
  if c.socketPool fd then perform (.close fd) else return ⟨⟩

/-- `args.uid`. -/
def argsUid : Option α → M υ υ
  | none => Comp.raise (.index "nil" "args")
  | some args => return c.uid args

/-- What `request` forks in an agent. -/
def agentRequest (fd : Int) (f : Handler α π) (args : Option α) (response : Option (Response π)) :
    M υ Unit :=
  match f args none with
  | .ok (errcode, pack) => respPackage c fd (pack.getD c.noPack) (some (errcode.getD success)) response
  | .error _ => return ⟨⟩

/-- What `request` forks in a hub slave. -/
def hubRequest (fd : Int) (f : Handler α π) (args : Option α) (response : Option (Response π)) :
    M υ Unit :=
  match f args (some fd) with
  | .ok (errcode, some pack) => do
    respPackage c fd pack errcode response
    if errcode = some success then
      return ⟨⟩
    else
      let uid ← argsUid c args
      perform (.kick uid)
  | .ok (_, none) => do
    -- the text of the log has the uid in it
    let _uid ← argsUid c args
    socketClose c fd
  | .error _ => return ⟨⟩

/-- `request`: the coroutine it forks. -/
def request (fd : Int) (name : String) (args : Option α) (response : Option (Response π)) :
    Except LuaError (M υ Unit) :=
  match c.handler name with
  | some f => .ok (if c.fd.isSome then agentRequest c fd f args response else hubRequest c fd f args response)
  | none => .error (.raised ("agent invalid client handler " ++ name))

/-- A coroutine to its end. -/
def resume (fork : M υ Unit) : Dispatched υ :=
  match fork [] with
  | some (.ok _, effects) => ⟨effects, []⟩
  | some (.error e, effects) => ⟨effects, [e]⟩
  | none => ⟨[], []⟩

/-- `dispatch`, and what it forked. -/
def dispatch (fd : Int) (message : Message α π) : Dispatched υ :=
  if c.fd.isSome ∧ c.fd ≠ some fd then
    ⟨[], []⟩
  else
    match message with
    | .request name args response =>
      match request c fd name args response with
      | .ok fork => resume fork
      | .error _ => ⟨[], []⟩
    | .response => ⟨[], [.raised "tcp client doesn't support request client"]⟩

end

/-! ## Settled requests -/

section Settled

variable {α υ π : Type}

/-- The responses sent on a socket, and the times it was told to close. -/
def Dispatched.responses (d : Dispatched υ) (fd : Int) : Nat :=
  d.effects.countP fun
    | .sendText fd' _ => fd' = fd
    | _ => false

def Dispatched.closes (d : Dispatched υ) (fd : Int) : Nat :=
  d.effects.countP fun
    | .close fd' => fd' = fd
    | _ => false

/-- One response, which takes a session, or one close, and not both; and no error in a coroutine. -/
def Settled (fd : Int) (session : Bool) (d : Dispatched υ) : Prop :=
  d.errors = [] ∧
    ((session = true ∧ d.responses fd = 1 ∧ d.closes fd = 0) ∨ (d.responses fd = 0 ∧ d.closes fd = 1))

variable (c : Service α υ π)

/-- There is a `response`, and it and `netpack` take the pack. -/
def Sends (pack : π) (ud : Option Int) (response : Option (Response π)) : Prop :=
  ∃ r data text, response = some r ∧ r pack ud = .ok data ∧ c.netpack data = .ok text

/-- When an agent settles a request: the handler returns and its pack can be sent. -/
def AgentSettles (f : Handler α π) (args : Option α) (response : Option (Response π)) : Prop :=
  ∃ errcode pack, f args none = .ok (errcode, pack) ∧
    Sends c (pack.getD c.noPack) (some (errcode.getD success)) response

/-- When a hub slave settles a request: the handler returns, its pack can be sent or there is none and
the socket is one of the service, and where the uid is asked for there are arguments. -/
def HubSettles (fd : Int) (f : Handler α π) (args : Option α) (response : Option (Response π)) : Prop :=
  (∃ errcode pack, f args (some fd) = .ok (errcode, some pack) ∧ Sends c pack errcode response ∧
    (errcode = some success ∨ args.isSome = true)) ∨
  (∃ errcode, f args (some fd) = .ok (errcode, none) ∧ args.isSome = true ∧ c.socketPool fd = true)

/-- When a request is settled: it came on the socket of the agent, its name has a handler, and what this
forks settles it. -/
def Settles (fd : Int) (name : String) (args : Option α) (response : Option (Response π)) : Prop :=
  (c.fd.isSome = true → c.fd = some fd) ∧ ∃ f, c.handler name = some f ∧
    if c.fd.isSome = true then AgentSettles c f args response else HubSettles c fd f args response

/-! ## What a request has done -/

/-- A response that can be sent is sent, and nothing is raised. -/
theorem respPackage_of_sends {pack : π} {ud : Option Int} {response : Option (Response π)}
    (h : Sends c pack ud response) (fd : Int) (effects : List (Effect υ)) :
    ∃ text, respPackage c fd pack ud response effects = some (.ok ⟨⟩, effects ++ [Effect.sendText fd text]) := by
  obtain ⟨r, data, text, rfl, hr, htext⟩ := h
  refine ⟨text, ?_⟩
  simp only [respPackage, sendText, hr, lift_ok_bind, htext]
  rfl

/-- One that cannot raises, and nothing is sent. -/
theorem respPackage_of_not_sends {pack : π} {ud : Option Int} {response : Option (Response π)}
    (h : ¬ Sends c pack ud response) (fd : Int) (effects : List (Effect υ)) :
    ∃ e, respPackage c fd pack ud response effects = some (.error e, effects) := by
  rcases response with - | r
  · exact ⟨_, rfl⟩
  · rcases hr : r pack ud with e | data
    · exact ⟨e, by simp only [respPackage, hr, lift_error_bind]⟩
    · rcases htext : c.netpack data with e | text
      · exact ⟨e, by simp only [respPackage, sendText, hr, lift_ok_bind, htext, lift_error_bind]⟩
      · exact absurd ⟨r, data, text, rfl, hr, htext⟩ h

/-- An error settles nothing. -/
theorem not_settled_of_error {fd : Int} {session : Bool} {effects : List (Effect υ)} {e : LuaError} :
    ¬ Settled fd session (⟨effects, [e]⟩ : Dispatched υ) := by
  simp [Settled]

/-- Neither does silence. -/
theorem not_settled_empty {fd : Int} {session : Bool} : ¬ Settled fd session (⟨[], []⟩ : Dispatched υ) := by
  simp [Settled, Dispatched.responses, Dispatched.closes]

/-- A text settles a request that has a session. -/
theorem settled_sendText {fd : Int} {text : List UInt8} :
    Settled fd true (⟨[.sendText fd text], []⟩ : Dispatched υ) := by
  simp [Settled, Dispatched.responses, Dispatched.closes]

/-- A kick is not told to the connection of the request. -/
theorem settled_sendText_kick {fd : Int} {text : List UInt8} {uid : υ} :
    Settled fd true (⟨[.sendText fd text, .kick uid], []⟩ : Dispatched υ) := by
  simp [Settled, Dispatched.responses, Dispatched.closes]

/-- So does the end of the connection. -/
theorem settled_close {fd : Int} {session : Bool} :
    Settled fd session (⟨[.close fd], []⟩ : Dispatched υ) := by
  simp [Settled, Dispatched.responses, Dispatched.closes]

/-- What is sent is a response. -/
theorem Sends.isSome {pack : π} {ud : Option Int} {response : Option (Response π)}
    (h : Sends c pack ud response) : response.isSome = true := by
  obtain ⟨r, -, -, rfl, -⟩ := h
  rfl

/-! ## When it settles -/

/-- A request to an agent. -/
theorem agentRequest_settled_iff (fd : Int) (f : Handler α π) (args : Option α)
    (response : Option (Response π)) :
    Settled fd response.isSome (resume (agentRequest c fd f args response)) ↔
      AgentSettles c f args response := by
  unfold agentRequest AgentSettles
  rcases hf : f args none with e | ⟨errcode, pack⟩
  · -- the error is logged
    exact iff_of_false not_settled_empty (by simp)
  · have hiff : (∃ errcode' pack', (Except.ok (errcode, pack) : Except LuaError _) = .ok (errcode', pack') ∧
        Sends c (pack'.getD c.noPack) (some (errcode'.getD success)) response) ↔
          Sends c (pack.getD c.noPack) (some (errcode.getD success)) response := by
      simp
    rw [hiff]
    by_cases hsends : Sends c (pack.getD c.noPack) (some (errcode.getD success)) response
    · obtain ⟨text, htext⟩ := respPackage_of_sends c hsends fd []
      simp only [resume, htext, hsends.isSome, hsends, iff_true]
      exact settled_sendText
    · obtain ⟨e, he⟩ := respPackage_of_not_sends c hsends fd []
      simp only [resume, he, hsends, iff_false]
      exact not_settled_of_error

/-- A request to the hub. -/
theorem hubRequest_settled_iff (fd : Int) (f : Handler α π) (args : Option α)
    (response : Option (Response π)) :
    Settled fd response.isSome (resume (hubRequest c fd f args response)) ↔
      HubSettles c fd f args response := by
  unfold hubRequest HubSettles
  rcases hf : f args (some fd) with e | ⟨errcode, - | pack⟩
  · exact iff_of_false not_settled_empty (by simp)
  · -- no pack: the socket is closed, once the uid is in the log
    have hiff : ((∃ errcode' pack', (Except.ok (errcode, none) : Except LuaError (Option Int × Option π)) =
          .ok (errcode', some pack') ∧ Sends c pack' errcode' response ∧
            (errcode' = some success ∨ args.isSome = true)) ∨
        ∃ errcode', (Except.ok (errcode, none) : Except LuaError (Option Int × Option π)) = .ok (errcode', none) ∧
          args.isSome = true ∧ c.socketPool fd = true) ↔
        args.isSome = true ∧ c.socketPool fd = true := by
      simp
    rw [hiff]
    rcases args with - | args
    · exact iff_of_false not_settled_of_error (by simp)
    · by_cases hpool : c.socketPool fd = true
      · have hrun : (do let _uid ← argsUid c (some args); socketClose c fd : M υ Unit) [] =
            some (.ok ⟨⟩, [.close fd]) := by
          simp only [argsUid, socketClose, hpool, if_true]
          rfl
        simp only [resume, hrun, hpool, Option.isSome_some, and_self, iff_true]
        exact settled_close
      · have hrun : (do let _uid ← argsUid c (some args); socketClose c fd : M υ Unit) [] =
            some (.ok ⟨⟩, []) := by
          simp only [argsUid, socketClose, hpool]
          rfl
        simp only [resume, hrun, hpool]
        exact iff_of_false not_settled_empty (by simp)
  · have hiff : ((∃ errcode' pack', (Except.ok (errcode, some pack) : Except LuaError (Option Int × Option π)) =
          .ok (errcode', some pack') ∧ Sends c pack' errcode' response ∧
            (errcode' = some success ∨ args.isSome = true)) ∨
        ∃ errcode', (Except.ok (errcode, some pack) : Except LuaError (Option Int × Option π)) =
          .ok (errcode', none) ∧ args.isSome = true ∧ c.socketPool fd = true) ↔
        Sends c pack errcode response ∧ (errcode = some success ∨ args.isSome = true) := by
      simp
    rw [hiff]
    by_cases hsends : Sends c pack errcode response
    · obtain ⟨text, htext⟩ := respPackage_of_sends c hsends fd []
      simp only [resume, Comp.bind_apply, htext, hsends.isSome, hsends, true_and]
      by_cases hsuccess : errcode = some success
      · simp only [hsuccess, if_true, true_or, iff_true]
        exact settled_sendText
      · -- the response is sent before the uid is asked for
        simp only [hsuccess, if_false, false_or]
        rcases args with - | args
        · exact iff_of_false not_settled_of_error (by simp)
        · exact iff_of_true settled_sendText_kick rfl
    · obtain ⟨e, he⟩ := respPackage_of_not_sends c hsends fd []
      simp only [resume, Comp.bind_apply, he, hsends, false_and, iff_false]
      exact not_settled_of_error

/-- A request is settled exactly when its name has a handler, which returns, on the socket of the agent,
and what it returns can be sent or, in a hub slave, closes a socket of the service. -/
theorem settled_iff (fd : Int) (name : String) (args : Option α) (response : Option (Response π)) :
    Settled fd response.isSome (dispatch c fd (.request name args response)) ↔
      Settles c fd name args response := by
  unfold dispatch Settles
  by_cases hother : c.fd.isSome = true ∧ c.fd ≠ some fd
  · rw [if_pos hother]
    exact iff_of_false not_settled_empty fun h => hother.2 (h.1 hother.1)
  · have hown : c.fd.isSome = true → c.fd = some fd := by
      intro hsome
      by_contra hne
      exact hother ⟨hsome, hne⟩
    rw [if_neg hother]
    simp only [request]
    rcases hname : c.handler name with - | f
    · exact iff_of_false not_settled_empty (by simp)
    · rw [and_iff_right hown]
      simp only [Option.some.injEq, exists_eq_left']
      split
      · exact agentRequest_settled_iff c fd f args response
      · exact hubRequest_settled_iff c fd f args response

end Settled

/-- A request whose name has no handler is only logged. -/
theorem not_settled : ¬ Settled 7 true
    (dispatch (⟨some 7, fun _ => none, ⟨⟩, fun _ => ⟨⟩, .ok, fun _ => false⟩ : Service Unit Unit Unit) 7
      (.request "signup" (some ⟨⟩) (some fun _ _ => .ok [0]))) := not_settled_empty

end AntServer.Game.Client
