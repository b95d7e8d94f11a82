/-
# AntServer.Login.Verdict — one status line per login attempt

The protocol comment of `logind/loginserver.lua` gives every failing step its status: 400 the challenge,
401 `auth_handler`, 406 the login that is already going on, 403 `login_handler`, and 200 a login without a
failure. An attempt is the slave's part and then the master's, on one socket.

From the token on every outcome has its one line (`attempt_of_secret`). Before it none has: a challenge
that is answered wrongly gets two lines, the 400 of the slave and the 401 of the master for the error the
slave then raises, and one that cannot be checked at all, for a key of the wrong length or a line that
does not decode, gets the 401 only (`attempt_of_none`). A client that falls silent gets none.
-/
import AntServer.Login.LoginServer

namespace AntServer.Login.LoginServer

open Lib (Table)

section Attempt

variable (crypt : Crypt) (authHandler : LuaString → Except LuaError Auth)
  (loginHandler : Auth → LuaString → Except LuaError (Option LuaString))
  (multilogin : Bool) (userLogin : UserLogin) (challenge serverkey : LuaString) (client : Client)
  (socket : Socket)

/-- What the client receives of a status line that the master writes. -/
def received (status : Status) : List Status := if socket.status then [status] else []

/-- The status lines the master writes for an answer of the slave. -/
def accept (answer : Answer) : List Status :=
  match (acceptAnswer multilogin userLogin answer).1, answer with
  | some (.writing status), _ => received socket status
  | some (.handler uid), .authorized auth secret =>
    match (acceptHandled crypt (acceptAnswer multilogin userLogin answer).2 uid
      (loginHandler auth secret)).1 with
    | .writing status => received socket status
    | _ => []
  | _, _ => []

/-- The status lines that a client receives in one attempt. -/
def attempt : List Status :=
  let (answer, lines) := slave crypt authHandler challenge serverkey client socket
  match answer with
  | none => lines
  | some answer => lines ++ accept crypt loginHandler multilogin userLogin socket answer

/-! ## The protocol -/

/-- The text of a line that was sent. -/
def Read.text : Read → Option LuaString
  | .line text => some text
  | _ => none

/-- Steps 1 to 5: the secret of the two keys. -/
def sharedSecret : Option LuaString := do
  let handshake ← client.handshake.text
  let clientkey ← crypt.base64decode handshake
  if clientkey.length = 8 then crypt.dhsecret clientkey serverkey else none

/-- Step 6: the client has answered the challenge with the hmac. -/
def Answers (secret : LuaString) : Prop :=
  client.response.text.bind crypt.base64decode = some (crypt.hmac64 challenge secret)

instance (secret : LuaString) : Decidable (Answers crypt challenge client secret) :=
  inferInstanceAs (Decidable (_ = _))

/-- Steps 1 to 6: the secret of a client that has met the challenge. -/
def challengeSecret : Option LuaString :=
  (sharedSecret crypt serverkey client).bind fun secret =>
    if Answers crypt challenge client secret then some secret else none

/-- Step 7: the token. -/
def clientToken (secret : LuaString) : Option LuaString := do
  let etoken ← client.etoken.text
  let text ← crypt.base64decode etoken
  crypt.desdecode secret text

/-- Step 8: what `auth_handler` says to it. -/
def authorization (secret : LuaString) : Option Auth :=
  (clientToken crypt client secret).bind fun token => (authHandler token).toOption

/-- The status of the first step that fails, or that of a login. -/
def verdict : Status :=
  match challengeSecret crypt challenge serverkey client with
  | none => .badRequest
  | some secret =>
    match authorization crypt authHandler client secret with
    | none => .unauthorized
    | some auth =>
      if multilogin = false ∧ (userLogin.get auth.uid).isSome then .notAcceptable
      else
        match loginHandler auth secret with
        | .error _ => .forbidden
        | .ok token => .ok (crypt.base64encode (token.getD []))

/-- The socket stays open. -/
def StaysOpen (client : Client) (socket : Socket) : Prop :=
  socket = ⟨true, true, true, true, true⟩ ∧ client.handshake ≠ .closed ∧ client.response ≠ .closed ∧
    client.etoken ≠ .closed

/-- A client whose socket stays open receives one status line, the one of the first step that fails. -/
def OneVerdict : Prop :=
  StaysOpen client socket →
    attempt crypt authHandler loginHandler multilogin userLogin challenge serverkey client socket =
      [verdict crypt authHandler loginHandler multilogin userLogin challenge serverkey client]

/-! ## The attempts -/

/-- A socket that is there at every use. -/
def allOpen : Socket := ⟨true, true, true, true, true⟩

@[simp] theorem write_open (lines sent : List Status) : write true lines sent = .ok () (sent ++ lines) := rfl
@[simp] theorem readline_line (text : LuaString) (sent : List Status) :
    readline (.line text) sent = .ok text sent := rfl
@[simp] theorem readline_silent (sent : List Status) : readline .silent sent = .error .waiting sent := rfl
@[simp] theorem call_some (name : String) (text : LuaString) (sent : List Status) :
    call name (some text) sent = .ok text sent := rfl
@[simp] theorem call_none (name : String) (sent : List Status) :
    call name none sent = .error (.raised (.raised name)) sent := rfl

/-- The ways to stop before the token: the client is silent, or an error is raised, after the line of a
failed challenge or without it. -/
inductive StopsEarly {α : Type} : EStateM.Result Stop (List Status) α → Prop
  | waiting : StopsEarly (.error .waiting [])
  | raised (e : LuaError) : StopsEarly (.error (.raised e) [])
  | failed (e : LuaError) : StopsEarly (.error (.raised e) [.badRequest])

theorem bind_ok {α β : Type} {x : SlaveM α} {f : α → SlaveM β} {sent sent' : List Status} {a : α}
    (h : x sent = .ok a sent') : (x >>= f) sent = f a sent' := by
  simp only [bind, EStateM.bind, h]

theorem bind_error {α β : Type} {x : SlaveM α} {f : α → SlaveM β} {sent sent' : List Status} {e : Stop}
    (h : x sent = .error e sent') : (x >>= f) sent = .error e sent' := by
  simp only [bind, EStateM.bind, h]

/-- The exchange gives the secret of the two keys, or stops. -/
theorem exchange_run (h : client.handshake ≠ .closed) :
    (∃ secret, sharedSecret crypt serverkey client = some secret ∧
      exchange crypt serverkey client allOpen [] = .ok secret []) ∨
    sharedSecret crypt serverkey client = none ∧
      StopsEarly (exchange crypt serverkey client allOpen []) := by
  unfold exchange sharedSecret
  rw [bind_ok (x := write allOpen.challenge []) (write_open [] [])]
  cases hh : client.handshake with
  | closed => exact absurd hh h
  | silent =>
    rw [bind_error (readline_silent _)]
    exact .inr ⟨rfl, .waiting⟩
  | line handshake =>
    rw [bind_ok (readline_line _ _)]
    simp only [Read.text, Option.bind_eq_bind, Option.bind_some]
    cases hk : crypt.base64decode handshake with
    | none =>
      rw [bind_error (call_none _ _)]
      exact .inr ⟨rfl, .raised _⟩
    | some clientkey =>
      rw [bind_ok (call_some _ _ _)]
      simp only [Option.bind_some]
      by_cases hlen : clientkey.length = 8
      · rw [if_pos hlen, if_pos hlen, bind_ok (x := write allOpen.serverkey []) (write_open [] _)]
        cases hd : crypt.dhsecret clientkey serverkey with
        | none => exact .inr ⟨rfl, .raised _⟩
        | some secret => exact .inl ⟨secret, rfl, rfl⟩
      · rw [if_neg hlen, if_neg hlen]
        exact .inr ⟨rfl, .raised _⟩

/-- The comparison passes when the client has answered the challenge, and stops otherwise. -/
theorem compare_run (h : client.response ≠ .closed) (secret : LuaString) :
    Answers crypt challenge client secret ∧
      compare crypt challenge client allOpen secret [] = .ok () [] ∨
    ¬ Answers crypt challenge client secret ∧
      StopsEarly (compare crypt challenge client allOpen secret []) := by
  unfold compare Answers
  cases hr : client.response with
  | closed => exact absurd hr h
  | silent =>
    rw [bind_error (readline_silent _)]
    exact .inr ⟨by simp [Read.text], .waiting⟩
  | line response =>
    rw [bind_ok (readline_line _ _)]
    simp only [Read.text, Option.bind_some]
    cases ha : crypt.base64decode response with
    | none =>
      rw [bind_error (call_none _ _)]
      exact .inr ⟨by simp, .raised _⟩
    | some answer =>
      rw [bind_ok (call_some _ _ _)]
      by_cases heq : crypt.hmac64 challenge secret = answer
      · rw [if_pos heq]
        exact .inl ⟨by rw [heq], rfl⟩
      · rw [if_neg heq]
        exact .inr ⟨fun he => heq (Option.some.inj he).symm, .failed _⟩

/-- After a failed challenge the slave has stopped early. -/
theorem auth_of_none (hhandshake : client.handshake ≠ .closed) (hresponse : client.response ≠ .closed)
    (h : challengeSecret crypt challenge serverkey client = none) :
    StopsEarly (auth crypt authHandler challenge serverkey client allOpen []) := by
  have hstop : ∀ {α β : Type} {x : SlaveM α} {f : α → SlaveM β}, StopsEarly (x []) →
      StopsEarly ((x >>= f) []) := by
    intro α β x f hx
    generalize hr : x [] = r at hx
    cases hx with
    | waiting => rw [bind_error hr]; exact .waiting
    | raised e => rw [bind_error hr]; exact .raised e
    | failed e => rw [bind_error hr]; exact .failed e
  unfold auth
  rcases exchange_run crypt serverkey client hhandshake with ⟨secret, hs, hrun⟩ | ⟨-, hrun⟩
  · rw [bind_ok hrun]
    unfold challengeSecret at h
    rw [hs, Option.bind_some] at h
    rcases compare_run crypt challenge client hresponse secret with ⟨ha, -⟩ | ⟨-, hrun⟩
    · rw [if_pos ha] at h
      cases h
    · exact hstop hrun
  · exact hstop hrun

/-- What the client receives then: nothing, the 401 only, or both lines. -/
theorem attempt_of_none (hhandshake : client.handshake ≠ .closed) (hresponse : client.response ≠ .closed)
    (h : challengeSecret crypt challenge serverkey client = none) :
    attempt crypt authHandler loginHandler multilogin userLogin challenge serverkey client allOpen ∈
      [[], [.unauthorized], [.badRequest, .unauthorized]] := by
  have hstop := auth_of_none crypt authHandler challenge serverkey client hhandshake hresponse h
  have hslave : slave crypt authHandler challenge serverkey client allOpen =
      retPack (auth crypt authHandler challenge serverkey client allOpen []) := rfl
  unfold attempt
  rw [hslave]
  generalize auth crypt authHandler challenge serverkey client allOpen [] = r at hstop
  cases hstop with
  | waiting => simp [retPack]
  | raised e => simp [retPack, accept, acceptAnswer, received, allOpen]
  | failed e => simp [retPack, accept, acceptAnswer, received, allOpen]

/-- The third line: the client is silent, or its token is read, or it does not decode. -/
theorem readToken_run (h : client.etoken ≠ .closed) (secret : LuaString) :
    (client.etoken = .silent ∧ readToken crypt client secret [] = .error .waiting []) ∨
    client.etoken ≠ .silent ∧
      ((∃ token, clientToken crypt client secret = some token ∧
          readToken crypt client secret [] = .ok token []) ∨
        clientToken crypt client secret = none ∧
          ∃ e, readToken crypt client secret [] = .error (.raised e) []) := by
  unfold readToken clientToken
  cases ht : client.etoken with
  | closed => exact absurd ht h
  | silent => exact .inl ⟨rfl, bind_error (readline_silent _)⟩
  | line etoken =>
    refine .inr ⟨nofun, ?_⟩
    rw [bind_ok (readline_line _ _)]
    simp only [Read.text, Option.bind_eq_bind, Option.bind_some]
    cases hd : crypt.base64decode etoken with
    | none => exact .inr ⟨rfl, _, bind_error (call_none _ _)⟩
    | some text =>
      rw [bind_ok (call_some _ _ _), Option.bind_some]
      cases hdes : crypt.desdecode secret text with
      | none => exact .inr ⟨rfl, _, call_none _ _⟩
      | some token => exact .inl ⟨token, rfl, call_some _ _ _⟩

/-- After the challenge the slave has written nothing and goes on with the token. -/
theorem auth_of_secret {secret : LuaString} (hhandshake : client.handshake ≠ .closed)
    (hresponse : client.response ≠ .closed)
    (h : challengeSecret crypt challenge serverkey client = some secret) :
    auth crypt authHandler challenge serverkey client allOpen [] =
      (readToken crypt client secret >>= fun token => pure (authHandler token, secret)) [] := by
  unfold challengeSecret at h
  obtain ⟨secret', hs, hif⟩ := Option.bind_eq_some_iff.mp h
  obtain ⟨ha, rfl⟩ : Answers crypt challenge client secret' ∧ secret' = secret := by
    split at hif
    · rename_i ha
      exact ⟨ha, Option.some.inj hif⟩
    · cases hif
  unfold auth
  rcases exchange_run crypt serverkey client hhandshake with ⟨secret, hs', hrun⟩ | ⟨hs', -⟩
  · rw [hs] at hs'
    obtain rfl := Option.some.inj hs'
    rw [bind_ok hrun]
    rcases compare_run crypt challenge client hresponse secret' with ⟨-, hrun⟩ | ⟨hna, -⟩
    · rw [bind_ok hrun]
    · exact absurd ha hna
  · rw [hs] at hs'
    cases hs'

/-- The answer of the slave after the challenge. -/
theorem slave_of_secret {secret : LuaString} (hhandshake : client.handshake ≠ .closed)
    (hresponse : client.response ≠ .closed) (hetoken : client.etoken ≠ .closed)
    (h : challengeSecret crypt challenge serverkey client = some secret) :
    (client.etoken = .silent ∧ slave crypt authHandler challenge serverkey client allOpen = (none, [])) ∨
    client.etoken ≠ .silent ∧
      ((∃ auth, authorization crypt authHandler client secret = some auth ∧
          slave crypt authHandler challenge serverkey client allOpen =
            (some (.authorized auth secret), [])) ∨
        authorization crypt authHandler client secret = none ∧
          ∃ e, slave crypt authHandler challenge serverkey client allOpen = (some (.refused e), [])) := by
  have hslave : slave crypt authHandler challenge serverkey client allOpen =
      retPack (auth crypt authHandler challenge serverkey client allOpen []) := rfl
  rw [hslave, auth_of_secret crypt authHandler challenge serverkey client hhandshake hresponse h]
  unfold authorization
  rcases readToken_run crypt client hetoken secret with ⟨hs, hrun⟩ | ⟨hs, ⟨token, ht, hrun⟩ | ⟨ht, e, hrun⟩⟩
  · exact .inl ⟨hs, by rw [bind_error hrun]; rfl⟩
  · refine .inr ⟨hs, ?_⟩
    rw [bind_ok hrun, ht, Option.bind_some]
    cases ha : authHandler token with
    | ok auth => exact .inl ⟨auth, rfl, by simp [pure, EStateM.pure, retPack]⟩
    | error e => exact .inr ⟨rfl, e, by simp [pure, EStateM.pure, retPack]⟩
  · refine .inr ⟨hs, .inr ⟨by rw [ht]; rfl, e, ?_⟩⟩
    rw [bind_error hrun]
    rfl

/-- The master's line for an authorized user. -/
theorem accept_authorized (auth : Auth) (secret : LuaString) :
    accept crypt loginHandler multilogin userLogin allOpen (.authorized auth secret) =
      [if multilogin = false ∧ (userLogin.get auth.uid).isSome then .notAcceptable
        else
          match loginHandler auth secret with
          | .error _ => .forbidden
          | .ok token => .ok (crypt.base64encode (token.getD []))] := by
  cases multilogin with
  | true =>
    cases hl : loginHandler auth secret <;> simp [accept, acceptAnswer, acceptHandled, received, allOpen, hl]
  | false =>
    by_cases hlock : (userLogin.get auth.uid).isSome = true
    · simp [accept, acceptAnswer, received, allOpen, hlock]
    · cases hl : loginHandler auth secret <;>
        simp [accept, acceptAnswer, acceptHandled, received, allOpen, hlock, hl]

/-- From the token on: nothing while the client is silent, and otherwise the one line of the verdict. -/
theorem attempt_of_secret {secret : LuaString} (hhandshake : client.handshake ≠ .closed)
    (hresponse : client.response ≠ .closed) (hetoken : client.etoken ≠ .closed)
    (h : challengeSecret crypt challenge serverkey client = some secret) :
    attempt crypt authHandler loginHandler multilogin userLogin challenge serverkey client allOpen =
      if client.etoken = .silent then []
      else [verdict crypt authHandler loginHandler multilogin userLogin challenge serverkey client] := by
  unfold attempt verdict
  rw [h]
  rcases slave_of_secret crypt authHandler challenge serverkey client hhandshake hresponse hetoken h with
    ⟨hs, hrun⟩ | ⟨hs, ⟨auth, ha, hrun⟩ | ⟨ha, e, hrun⟩⟩
  · rw [hrun, if_pos hs]
  · rw [hrun, if_neg hs]
    simp only [List.nil_append, accept_authorized, ha]
  · rw [hrun, if_neg hs]
    simp only [ha]
    rfl

/-! ## The condition -/

/-- A client whose socket stays open receives its one line exactly when it meets the challenge and sends
a third line. -/
theorem oneVerdict_iff :
    OneVerdict crypt authHandler loginHandler multilogin userLogin challenge serverkey client socket ↔
      (StaysOpen client socket → (challengeSecret crypt challenge serverkey client).isSome ∧
        client.etoken ≠ .silent) := by
  refine imp_congr_right fun hopen => ?_
  obtain ⟨rfl, hhandshake, hresponse, hetoken⟩ := hopen
  show attempt crypt authHandler loginHandler multilogin userLogin challenge serverkey client allOpen = _ ↔ _
  cases h : challengeSecret crypt challenge serverkey client with
  | none =>
    have hlines := attempt_of_none crypt authHandler loginHandler multilogin userLogin challenge serverkey
      client hhandshake hresponse h
    have hverdict : verdict crypt authHandler loginHandler multilogin userLogin challenge serverkey client =
        .badRequest := by
      unfold verdict
      rw [h]
    rw [hverdict]
    constructor
    · intro heq
      rw [heq] at hlines
      simp at hlines
    · rintro ⟨hsome, -⟩
      cases hsome
  | some secret =>
    rw [attempt_of_secret crypt authHandler loginHandler multilogin userLogin challenge serverkey client
      hhandshake hresponse hetoken h]
    by_cases hs : client.etoken = .silent
    · simp [hs]
    · simp [hs]

end Attempt

/-- The client key 1, and an answer of one byte. -/
def wrongAnswer : Client where
  handshake := .line (Lib.Base64.encode [1, 0, 0, 0, 0, 0, 0, 0])
  response := .line (Lib.Base64.encode [4])
  etoken := .silent

/-- A client that answers the challenge wrongly receives two lines. -/
theorem not_oneVerdict_wrongAnswer :
    attempt base64Crypt (fun _ => .error .assertion) (fun _ _ => .ok none) false Table.empty
        (List.replicate 8 1) (List.replicate 8 2) wrongAnswer allOpen = [.badRequest, .unauthorized] ∧
      ¬ OneVerdict base64Crypt (fun _ => .error .assertion) (fun _ _ => .ok none) false Table.empty
        (List.replicate 8 1) (List.replicate 8 2) wrongAnswer allOpen := by
  have hattempt : attempt base64Crypt (fun _ => .error .assertion) (fun _ _ => .ok none) false Table.empty
      (List.replicate 8 1) (List.replicate 8 2) wrongAnswer allOpen = [.badRequest, .unauthorized] := by
    decide +kernel
  refine ⟨hattempt, fun h => ?_⟩
  have hone := h ⟨rfl, nofun, nofun, nofun⟩
  rw [hattempt] at hone
  simp at hone

end AntServer.Login.LoginServer
