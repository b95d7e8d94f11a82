/-
# AntServer.Login.LoginServer — a login attempt, from the challenge to the status line

`service/login/logind/loginserver.lua`. A slave runs `auth`: the challenge, the exchange of the keys, the
comparison of the two hmacs, the token, and the user-defined `auth_handler`. The master runs `accept`: it
waits for the slave, takes the lock of the user, runs the user-defined `login_handler`, and writes the
status line.

Two services write to the one socket. The slave writes `400 Bad Request` itself and then raises; what it
raises reaches the master as `false, err`, for which the master writes `401 Unauthorized`. Only a socket
error is told apart, as `nil`.

A coroutine of `accept` waits for the slave, for `login_handler`, or in a write: `Wait`. What it does in
between is a function of what it was waiting for and of `user_login`.
-/
import AntServer.Lib.Base64
import AntServer.Lib.Table
import AntServer.Lua
import AntServer.LuaString

namespace AntServer.Login.LoginServer

open Lib (Table)

/-- The functions of `skynet.crypt` that `auth` and `accept` call; `none` when the call raises. -/
structure Crypt where
  base64encode : LuaString → LuaString
  base64decode : LuaString → Option LuaString
  dhsecret : LuaString → LuaString → Option LuaString
  hmac64 : LuaString → LuaString → LuaString
  desdecode : LuaString → LuaString → Option LuaString

/-- A `crypt` with the standard base64 texts. The secret of the client key 1 is 1, whatever the key of the
server. -/
def base64Crypt : Crypt where
  base64encode := Lib.Base64.encode
  base64decode := Lib.Base64.decode
  dhsecret := fun clientkey _ => some clientkey
  hmac64 := fun challenge _ => challenge
  desdecode := fun _ text => some text

/-- The status lines of the protocol. -/
inductive Status where
  | badRequest
  | unauthorized
  | forbidden
  | notAcceptable
  | ok (text : LuaString)
  deriving DecidableEq, Repr

/-- The bytes of a text. -/
def bytes (s : String) : LuaString := s.toUTF8.data.toList

/-- The line as it is written. -/
def Status.line : Status → LuaString
  | .badRequest => bytes "400 Bad Request\n"
  | .unauthorized => bytes "401 Unauthorized\n"
  | .forbidden => bytes "403 Forbidden\n"
  | .notAcceptable => bytes "406 Not Acceptable\n"
  | .ok text => bytes "200 " ++ text ++ bytes "\n"

/-- What `socket.readline` finds: a line, the end of the connection, or neither, for ever. -/
inductive Read where
  | line (text : LuaString)
  | closed
  | silent
  deriving DecidableEq, Repr

/-- The three lines of a client. -/
structure Client where
  handshake : Read
  response : Read
  etoken : Read
  deriving DecidableEq, Repr

/-- Whether the socket is still there at each of its uses: `socket.start`, the three writes of the slave
and the write of the master. -/
structure Socket where
  start : Bool
  challenge : Bool
  serverkey : Bool
  badRequest : Bool
  status : Bool
  deriving DecidableEq, Repr

/-- What `auth_handler` returns. -/
structure Auth where
  server : LuaString
  uid : LuaString
  pf : LuaString
  protocol : LuaString
  deriving DecidableEq, Repr

/-! ## The slave -/

/-- Why `auth` does not return: an error, the `socket_error` table, or a client that sends nothing. -/
inductive Stop where
  | raised (e : LuaError)
  | socketError
  | waiting
  deriving DecidableEq, Repr

/-- A computation of the slave, with the status lines written so far. -/
abbrev SlaveM := EStateM Stop (List Status)

/-- `write(service, fd, text)`; `lines` are the status lines among the text. -/
def write (open? : Bool) (lines : List Status) : SlaveM Unit :=
  if open? then modify (· ++ lines) else throw .socketError

/-- `assert_socket(service, socket.readline(fd), fd)`. -/
def readline : Read → SlaveM LuaString
  | .line text => pure text
  | .closed => throw .socketError
  | .silent => throw .waiting

/-- A call of a C function. -/
def call (name : String) : Option LuaString → SlaveM LuaString
  | some s => pure s
  | none => throw (.raised (.raised name))

section Slave

variable (crypt : Crypt) (authHandler : LuaString → Except LuaError Auth) (challenge serverkey : LuaString)
  (client : Client) (socket : Socket)

/-- `auth` up to the secret, with the two random keys it draws. -/
def exchange : SlaveM LuaString := do
  write socket.challenge []
  let handshake ← readline client.handshake
  let clientkey ← call "base64decode" (crypt.base64decode handshake)
  if clientkey.length = 8 then
    write socket.serverkey []
    call "dhsecret" (crypt.dhsecret clientkey serverkey)
  else throw (.raised (.raised "Invalid client key"))

/-- `auth` from the second line of the client: the comparison of the hmacs. -/
def compare (secret : LuaString) : SlaveM Unit := do
  let response ← readline client.response
  let hmac := crypt.hmac64 challenge secret
  let answer ← call "base64decode" (crypt.base64decode response)
  if hmac = answer then pure ()
  else
    write socket.badRequest [.badRequest]
    throw (.raised (.raised "challenge failed"))

/-- `auth` from the third line: the token. -/
def readToken (secret : LuaString) : SlaveM LuaString := do
  let etoken ← readline client.etoken
  let text ← call "base64decode" (crypt.base64decode etoken)
  call "desdecode" (crypt.desdecode secret text)

/-- `auth`: what `pcall(auth_handler, token)` gave, and the secret. -/
def auth : SlaveM (Except LuaError Auth × LuaString) := do
  let secret ← exchange crypt serverkey client socket
  compare crypt challenge client socket secret
  let token ← readToken crypt client secret
  return (authHandler token, secret)

/-- The answer of the slave, as the master unpacks it. -/
inductive Answer where
  /-- `nil, "socket error"` -/
  | socketError
  /-- `false, err` -/
  | refused (err : LuaError)
  /-- `true, server, uid, pf, protocol, secret` -/
  | authorized (auth : Auth) (secret : LuaString)
  deriving DecidableEq, Repr

/-- `ret_pack(pcall(auth, fd, addr))`, with the status lines written; there is no answer while the client
is silent. -/
def retPack : EStateM.Result Stop (List Status) (Except LuaError Auth × LuaString) →
    Option Answer × List Status
  | .ok (.ok auth, secret) lines => (some (.authorized auth secret), lines)
  | .ok (.error e, _) lines => (some (.refused e), lines)
  | .error (.raised e) lines => (some (.refused e), lines)
  | .error .socketError lines => (some .socketError, lines)
  | .error .waiting lines => (none, lines)

/-- The dispatch function of the slave: its answer, and the status lines it wrote. -/
def slave : Option Answer × List Status :=
  if socket.start then retPack (auth crypt authHandler challenge serverkey client socket [])
  else (some (.refused (.raised "socket")), [])

end Slave

/-! ## The master -/

/-- What a coroutine of `accept` waits for. -/
inductive Wait where
  | slave
  | writing (status : Status)
  | handler (uid : LuaString)
  deriving DecidableEq, Repr

/-- `user_login`. -/
abbrev UserLogin := Table LuaString Unit

/-- `accept` when the slave has answered, up to the next wait; `none` is the end of the coroutine. -/
def acceptAnswer (multilogin : Bool) (userLogin : UserLogin) : Answer → Option Wait × UserLogin
  | .socketError => (none, userLogin)
  | .refused _ => (some (.writing .unauthorized), userLogin)
  | .authorized auth _ =>
    if multilogin then (some (.handler auth.uid), userLogin)
    else if (userLogin.get auth.uid).isSome then (some (.writing .notAcceptable), userLogin)
    else (some (.handler auth.uid), userLogin.set auth.uid ())

/-- `accept` when `login_handler` has returned, with a token or without, or has raised. -/
def acceptHandled (crypt : Crypt) (userLogin : UserLogin) (uid : LuaString) :
    Except LuaError (Option LuaString) → Wait × UserLogin
  | .ok token => (.writing (.ok (crypt.base64encode (token.getD []))), userLogin.del uid)
  | .error _ => (.writing .forbidden, userLogin.del uid)

end AntServer.Login.LoginServer
