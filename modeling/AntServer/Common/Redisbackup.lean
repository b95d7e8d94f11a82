/-
# AntServer.Common.Redisbackup — the backup of a Redis server

The dbserver of `service/common/redisbackup.lua`. `S` asks Redis for the hash of a key, `L` sends a stored
hash back to it. Commands are written to one connection without waiting, and those whose answers are still
to come are in the queue `dbcmd`: an answer is read for the command at its head. What Redis answers to
`HGETALL` is stored under the key of that command, as the command `HMSET` that will restore it. When an
answer cannot be read the server connects again, selects the database, and writes the commands of the queue
once more.

While it waits for the answer to `SELECT` the new connection is there already, and commands that come in
are written to it. The state has what was written to the connection and is not answered (`wire`), the
commands that were accepted, and for every command taken from the queue the one that was answered
(`log`); these are not in the code. A string is a list of characters, each for a byte. The answer of an
action is what Redis sends for the first command of `wire`, whatever it is.
-/
import AntServer.Lib.Machine
import AntServer.Lib.Table
import AntServer.Lib.BulkStrings
import AntServer.LuaNumber

namespace AntServer.Common.Redisbackup

open Lib Lib.BulkStrings

abbrev Text := List Char

/-! ## The queue -/

/-- `dbcmd`. -/
structure Dbcmd where
  head : Nat
  tail : Nat
  cmds : Table Nat Text

namespace Dbcmd

def initial : Dbcmd := ⟨1, 1, .empty⟩

/-- `push`. -/
def push (q : Dbcmd) (v : Text) : Dbcmd := { q with cmds := q.cmds.set q.tail v, tail := q.tail + 1 }

/-- `pop`. -/
def pop (q : Dbcmd) : Option Text × Dbcmd :=
  if q.head = q.tail then (none, q)
  else
    let v := q.cmds.get q.head
    let q := { q with cmds := q.cmds.del q.head, head := q.head + 1 }
    (v, if q.head = q.tail then { q with head := 1, tail := 1 } else q)

/-- The commands from `head` to `tail`, as `connect_redis` writes them. -/
def content (q : Dbcmd) : List Text := (List.range' q.head (q.tail - q.head)).filterMap q.cmds.get

end Dbcmd

/-! ## Texts -/

/-- The command that `S` sends. -/
def loadCommand (key : Text) : Text :=
  "*2\r\n$7\r\nHGETALL\r\n$".toList ++ numeral key.length ++ crlf ++ key ++ crlf

/-- `string.match(cmd, "\r\n([^%s]+)\r\n$")`: the last line, if there is a line in front of it and it is
not empty and has no space. -/
def keyOf (cmd : Text) : Option Text :=
  let body := cmd.take (cmd.length - 2)
  let run := (body.reverse.takeWhile fun c => !LuaNumber.isSpace c).reverse
  if crlf <:+ cmd ∧ run ≠ [] ∧ crlf <:+ body.take (body.length - run.length) then some run else none

/-- What is stored for an answer of `r` bulk strings. -/
def hmset (r : Int) (key data : Text) : Text :=
  '*' :: LuaNumber.integerText (r + 2) ++ "\r\n$5\r\nHMSET\r\n$".toList ++ numeral key.length ++ crlf ++ key ++
    crlf ++ data

/-- The loop of `read_response` over `n` bulk strings: their text, and what is behind it. -/
def readBulks : Nat → Text → Option (Text × Text)
  | 0, t => some ([], t)
  | n + 1, t => (line t).bind fun r =>
    match LuaNumber.tonumber (r.1.drop 1) with
    | some (.int bytes) =>
      if 0 ≤ bytes then
        if bytes.toNat + 2 ≤ r.2.length then
          (readBulks n (r.2.drop (bytes.toNat + 2))).map fun q =>
            (r.1 ++ crlf ++ r.2.take (bytes.toNat + 2) ++ q.1, q.2)
        else none
      else (readBulks n r.2).map fun q => (r.1 ++ crlf ++ q.1, q.2)
    | _ => none

/-- What `read_response` returns. -/
inductive Response where
  | number (n : Int) (data : Text)
  | text (line : Text)

/-- `read_response`; none when it raises an error. It has no function to read a bulk string with. -/
def readResponse (firstline t : Text) : Option (Response × Text) :=
  match firstline with
  | '*' :: data =>
    match LuaNumber.tonumber data with
    | some (.int n) =>
      if n ≤ 0 then some (.number n [], t)
      else (readBulks n.toNat t).map fun r => (.number n r.1, r.2)
    | _ => none
  | '$' :: data =>
    match LuaNumber.tonumber data with
    | some (.int bytes) => if bytes < 0 then some (.text data, t) else none
    | _ => none
  | _ => some (.text firstline, t)

/-! ## The server -/

/-- A command taken from the queue: the one that was answered, the one that was taken, and what was saved. -/
structure Taken where
  asked : Text
  cmd : Option Text
  saved : Option (Text × Text)

/-- The connection to Redis, with what was written to it and is not answered. -/
inductive Conn where
  /-- the dispatcher reads answers -/
  | up (wire : List Text)
  /-- the socket is being opened -/
  | opening
  /-- `SELECT` was written and is not answered -/
  | selecting (wire : List Text)
  /-- no dispatcher is left -/
  | stopped

structure Backup where
  dbcmd : Dbcmd
  db : Table Text Text
  conn : Conn
  accepted : List Text
  /-- the newest first -/
  log : List Taken

inductive Action where
  | S (key : Text)
  | L (key : Text)
  /-- the answer to the first command of the wire -/
  | answer (input : Text)
  /-- an answer cannot be read -/
  | lost
  | opened
  | openFailed
  /-- `SELECT` is answered with `+OK` -/
  | selected
  | refused

namespace Backup

/-- The socket after `pcall(socket.write, fd, text)`. -/
def write (s : Backup) (text : Text) : Backup :=
  { s with conn := match s.conn with
      | .up wire => .up (wire ++ [text])
      | .selecting wire => .selecting (wire ++ [text])
      | c => c }

/-- `push`, and the text is written. -/
def send (s : Backup) (text : Text) : Backup :=
  write { s with dbcmd := s.dbcmd.push text, accepted := s.accepted ++ [text] } text

/-- `pop` for the answer to `asked`. -/
def take (s : Backup) (asked : Text) : Backup :=
  { s with dbcmd := s.dbcmd.pop.2, log := ⟨asked, s.dbcmd.pop.1, none⟩ :: s.log }

/-- `pop`, and `unqlite.save` under the key of the command; none when there is no key. -/
def save (s : Backup) (asked : Text) (n : Int) (data : Text) : Backup × Bool :=
  match s.dbcmd.pop.1.bind keyOf with
  | none => (s.take asked, false)
  | some key =>
    ({ s with
        dbcmd := s.dbcmd.pop.2
        db := s.db.set key (hmset n key data)
        log := ⟨asked, s.dbcmd.pop.1, some (key, hmset n key data)⟩ :: s.log }, true)

/-- `dispatch_one`, for the answer to `asked`: what is left of the input, and none when an error is
raised. -/
def dispatchOne (s : Backup) (asked input : Text) : Backup × Option Text :=
  match line input with
  | none => (s, none)
  | some (firstline, t) =>
    if firstline = "+OK".toList then (s.take asked, some t)
    else
      match readResponse firstline t with
      | none => (s, none)
      | some (.number n data, t) =>
        if 0 < n then
          let r := s.save asked n data
          (r.1, if r.2 then some t else none)
        else (s.take asked, some t)
      | some (.text _, t) => (s.take asked, some t)

def step (s : Backup) : Action → Option Backup
  | .S key =>
    -- the key is a part of a line
    if '\n' ∈ key then none else some (s.send (loadCommand key))
  | .L key => some (match s.db.get key with
      | some v => s.send v
      | none => s)
  | .answer input =>
    match s.conn with
    | .up (asked :: wire) =>
      match s.dispatchOne asked input with
      | (s, some []) => some { s with conn := .up wire }
      | (s, none) => some { s with conn := .opening }
      | _ => none
    | _ => none
  | .lost =>
    match s.conn with
    | .up _ => some { s with conn := .opening }
    | _ => none
  | .opened =>
    match s.conn with
    | .opening => some { s with conn := .selecting [] }
    | _ => none
  | .openFailed =>
    -- `socket.open` gives nothing, or raises an error: the dispatcher returns, and nobody forks another one
    match s.conn with
    | .opening => some { s with conn := .stopped }
    | _ => none
  | .selected =>
    match s.conn with
    | .selecting wire => some { s with conn := .up (wire ++ s.dbcmd.content) }
    | _ => none
  | .refused =>
    match s.conn with
    | .selecting _ => some { s with conn := .stopped }
    | _ => none

end Backup

/-- The server, from the start of its dispatcher on, with the data base it was given. -/
def backup : Machine Backup Action where
  start s := ∃ db, s = ⟨.initial, db, .up [], [], []⟩
  step := Backup.step

end AntServer.Common.Redisbackup
