/-
# AntServer.Common.Answers — every answer is read for the command it belongs to

The commands that were accepted are those that were taken from the queue and those that are in it, in the
order they came (`accounted`), so that none is lost when the connection is. As long as no command comes in
between `SELECT` and its answer, the answers to come are those the queue waits for: each is read for the
command it answers, and what is stored under a key is what that key was asked for (`answers_right`).

A command that comes in there is written to the new connection, and once more with the queue behind it.
Whatever Redis answers then, and whatever commands come in meanwhile, when all answers are read one of them
was read for another command (`read_right_iff`). What carries that is the length of the two rows: the wire
has never fewer commands than the queue, and they end together only if they are the same.
-/
import AntServer.Common.Restoring

namespace AntServer.Common.Redisbackup

open Lib Lib.BulkStrings

/-! ## The queue -/

namespace Dbcmd

/-- A command is at every place from `head` to `tail`. -/
structure WF (q : Dbcmd) : Prop where
  le : q.head ≤ q.tail
  filled : ∀ i, q.head ≤ i → i < q.tail → ∃ v, q.cmds.get i = some v

theorem wf_initial : initial.WF := ⟨Nat.le_refl 1, fun _ h1 h2 => absurd h2 (Nat.not_lt.mpr h1)⟩

variable {q : Dbcmd}

theorem WF.push (h : q.WF) (v : Text) : (q.push v).WF := by
  refine ⟨Nat.le_succ_of_le h.le, fun i h1 h2 => ?_⟩
  show ∃ x, (q.cmds.set q.tail v).get i = some x
  rw [Table.get_set]
  by_cases hi : i = q.tail
  · exact ⟨v, if_pos hi⟩
  · rw [if_neg hi]
    exact h.filled i h1 (lt_of_le_of_ne (Nat.le_of_lt_succ h2) hi)

theorem content_push (h : q.WF) (v : Text) : (q.push v).content = q.content ++ [v] := by
  have hle := h.le
  have hrange : List.range' q.head (q.tail + 1 - q.head) =
      List.range' q.head (q.tail - q.head) ++ [q.tail] := by
    have hlen : q.tail + 1 - q.head = q.tail - q.head + 1 := by omega
    have hlast : q.head + 1 * (q.tail - q.head) = q.tail := by omega
    rw [hlen, List.range'_concat, hlast]
  show (List.range' q.head (q.tail + 1 - q.head)).filterMap (q.cmds.set q.tail v).get = _
  rw [hrange, List.filterMap_append]
  refine congr (congrArg HAppend.hAppend (List.filterMap_congr fun i hi => ?_)) ?_
  · have hlt := (List.mem_range'_1.mp hi).2
    exact Table.get_set_ne _ _ (by omega)
  · show [q.tail].filterMap (q.cmds.set q.tail v).get = [v]
    rw [List.filterMap_cons, Table.get_set_self]
    rfl

theorem content_of_empty (h : q.head = q.tail) : q.content = [] := by
  unfold content
  rw [h, Nat.sub_self]
  rfl

/-- `pop` takes the first command, and nothing from an empty queue. -/
theorem pop_spec (h : q.WF) :
    q.pop.2.WF ∧ q.pop.1 = q.content.head? ∧ q.pop.2.content = q.content.tail := by
  by_cases hempty : q.head = q.tail
  · have hpop : q.pop = (none, q) := if_pos hempty
    rw [hpop]
    refine ⟨h, ?_, ?_⟩
    · rw [content_of_empty hempty]
      rfl
    · show q.content = q.content.tail
      rw [content_of_empty hempty]
      rfl
  · have hle := h.le
    obtain ⟨v, hv⟩ := h.filled q.head (Nat.le_refl _) (by omega)
    have hsame (i : Nat) (hi : q.head + 1 ≤ i) : (q.cmds.del q.head).get i = q.cmds.get i :=
      Table.get_del_ne _ (by omega)
    have hcontent : q.content =
        v :: (List.range' (q.head + 1) (q.tail - (q.head + 1))).filterMap q.cmds.get := by
      have hlen : q.tail - q.head = q.tail - (q.head + 1) + 1 := by omega
      unfold content
      rw [hlen, List.range'_succ, List.filterMap_cons, hv]
    rw [hcontent]
    by_cases hlast : q.head + 1 = q.tail
    · -- the queue is empty, and begins again at 1
      have hpop : q.pop = (q.cmds.get q.head, ⟨1, 1, q.cmds.del q.head⟩) := by
        unfold pop
        rw [if_neg hempty]
        exact congrArg _ (if_pos hlast)
      rw [hpop, hlast, Nat.sub_self]
      exact ⟨⟨Nat.le_refl 1, fun _ h1 h2 => absurd h2 (Nat.not_lt.mpr h1)⟩, hv, rfl⟩
    · have hpop : q.pop = (q.cmds.get q.head, ⟨q.head + 1, q.tail, q.cmds.del q.head⟩) := by
        unfold pop
        rw [if_neg hempty]
        exact congrArg _ (if_neg hlast)
      rw [hpop]
      refine ⟨⟨by show q.head + 1 ≤ q.tail; omega, fun i h1 h2 => ?_⟩, hv, ?_⟩
      · obtain ⟨x, hx⟩ := h.filled i (Nat.le_of_succ_le h1) h2
        exact ⟨x, (hsame i h1).trans hx⟩
      · exact List.filterMap_congr fun i hi => hsame i (List.mem_range'_1.mp hi).1

end Dbcmd

/-! ## One answer -/

/-- An array is read from an input that begins with its sign. -/
theorem head_of_number {input firstline t rest data : Text} {n : Int}
    (hline : line input = some (firstline, t))
    (h : readResponse firstline t = some (.number n data, rest)) : input.head? = some '*' := by
  match input with
  | [] => cases hline
  | c :: input =>
    rw [line] at hline
    split at hline
    · obtain ⟨rfl, rfl⟩ := Prod.mk.inj (Option.some.inj hline)
      cases h
    · obtain ⟨r, -, hr⟩ := Option.map_eq_some_iff.mp hline
      obtain ⟨rfl, rfl⟩ := Prod.mk.inj hr
      unfold readResponse at h
      split at h
      · rename_i heq
        rw [(List.cons.inj heq).1]
        rfl
      · -- a bulk string gives no number
        split at h
        · split at h <;> cases h
        · cases h
      · cases h

/-- The first command was taken from the queue for the answer to `asked`. What is saved is saved for an
array, and under the key of that command. -/
def Takes (s : Backup) (asked input : Text) (s' : Backup) : Prop :=
  ∃ db saved, s' =
      { s with dbcmd := s.dbcmd.pop.2, db := db, log := ⟨asked, s.dbcmd.pop.1, saved⟩ :: s.log } ∧
    ∀ key text, saved = some (key, text) → input.head? = some '*' ∧ s.dbcmd.pop.1.bind keyOf = some key

theorem takes_take (s : Backup) (asked input : Text) : Takes s asked input (s.take asked) :=
  ⟨s.db, none, rfl, by rintro key text ⟨⟩⟩

theorem takes_save (s : Backup) {asked input : Text} (n : Int) (data : Text)
    (hinput : input.head? = some '*') : Takes s asked input (s.save asked n data).1 := by
  cases hkey : s.dbcmd.pop.1.bind keyOf with
  | none =>
    have hsave : s.save asked n data = (s.take asked, false) := by rw [Backup.save, hkey]
    rw [hsave]
    exact takes_take s asked input
  | some key =>
    rw [Backup.save, hkey]
    refine ⟨_, _, rfl, fun k text h => ⟨hinput, ?_⟩⟩
    rw [hkey, (Prod.mk.inj (Option.some.inj h)).1]

/-- What `dispatch_one` can do: nothing, when the answer cannot be read, or it takes the first command from
the queue. -/
theorem dispatchOne_cases (s : Backup) (asked input : Text) :
    s.dispatchOne asked input = (s, none) ∨ Takes s asked input (s.dispatchOne asked input).1 := by
  unfold Backup.dispatchOne
  cases hline : line input with
  | none => exact .inl rfl
  | some l =>
    obtain ⟨firstline, t⟩ := l
    dsimp only
    by_cases hok : firstline = "+OK".toList
    · rw [if_pos hok]
      exact .inr (takes_take s asked input)
    · rw [if_neg hok]
      cases hr : readResponse firstline t with
      | none => exact .inl rfl
      | some x =>
        obtain ⟨x, rest⟩ := x
        refine .inr ?_
        cases x with
        | text l => exact takes_take s asked input
        | number n data =>
          dsimp only
          split
          · exact takes_save s n data (head_of_number hline hr)
          · exact takes_take s asked input

/-! ## One step -/

/-- What a step can do: change the connection alone, send a command, or read an answer. -/
inductive Did (s : Backup) : Action → Backup → Prop
  | idle {key : Text} : Did s (.L key) s
  | sent {a : Action} {text : Text} (ha : (∃ key, a = .S key) ∨ ∃ key, a = .L key) : Did s a (s.send text)
  | took {input asked : Text} {wire : List Text} {t : Backup} {c : Conn} (hconn : s.conn = .up (asked :: wire))
      (htakes : Takes s asked input t) (hc : c = .up wire ∨ c = .opening) :
      Did s (.answer input) { t with conn := c }
  | unread {input asked : Text} {wire : List Text} (hconn : s.conn = .up (asked :: wire)) :
      Did s (.answer input) { s with conn := .opening }
  | lost {wire : List Text} (hconn : s.conn = .up wire) : Did s .lost { s with conn := .opening }
  | opened (hconn : s.conn = .opening) : Did s .opened { s with conn := .selecting [] }
  | openFailed : Did s .openFailed { s with conn := .stopped }
  | selected {late : List Text} (hconn : s.conn = .selecting late) :
      Did s .selected { s with conn := .up (late ++ s.dbcmd.content) }
  | refused : Did s .refused { s with conn := .stopped }

theorem did_answer {s s' : Backup} {input : Text} (h : s.step (.answer input) = some s') :
    Did s (.answer input) s' := by
  rw [Backup.step] at h
  split at h
  · rename_i asked wire hconn
    rcases dispatchOne_cases s asked input with hnone | htakes
    · rw [hnone] at h
      obtain rfl := Option.some.inj h
      exact .unread hconn
    · generalize s.dispatchOne asked input = r at h htakes
      obtain ⟨t, r⟩ := r
      cases r with
      | none =>
        obtain rfl := Option.some.inj h
        exact .took hconn htakes (.inr rfl)
      | some rest =>
        cases rest with
        | nil =>
          obtain rfl := Option.some.inj h
          exact .took hconn htakes (.inl rfl)
        | cons c rest => cases h
  · cases h

theorem step_did {s s' : Backup} {a : Action} (h : s.step a = some s') : Did s a s' := by
  cases a with
  | S key =>
    rw [Backup.step] at h
    split at h
    · cases h
    · obtain rfl := Option.some.inj h
      exact .sent (.inl ⟨key, rfl⟩)
  | L key =>
    obtain rfl := Option.some.inj h
    split
    · exact .sent (.inr ⟨key, rfl⟩)
    · exact .idle
  | answer input => exact did_answer h
  | lost =>
    rw [Backup.step] at h
    split at h
    · rename_i hconn
      obtain rfl := Option.some.inj h
      exact .lost hconn
    · cases h
  | opened =>
    rw [Backup.step] at h
    split at h
    · rename_i hconn
      obtain rfl := Option.some.inj h
      exact .opened hconn
    · cases h
  | openFailed =>
    rw [Backup.step] at h
    split at h
    · obtain rfl := Option.some.inj h
      exact .openFailed
    · cases h
  | selected =>
    rw [Backup.step] at h
    split at h
    · rename_i hconn
      obtain rfl := Option.some.inj h
      exact .selected hconn
    · cases h
  | refused =>
    rw [Backup.step] at h
    split at h
    · obtain rfl := Option.some.inj h
      exact .refused
    · cases h

/-! ## No command is lost -/

/-- The commands that were taken from the queue, in their order. -/
def Backup.taken (s : Backup) : List Text := (s.log.filterMap Taken.cmd).reverse

/-- Every command that was accepted was taken from the queue, or is in it. -/
structure Accounted (s : Backup) : Prop where
  wf : s.dbcmd.WF
  accepted : s.accepted = s.taken ++ s.dbcmd.content

variable {s s' : Backup}

theorem Accounted.send (h : Accounted s) (text : Text) : Accounted (s.send text) := by
  refine ⟨h.wf.push text, ?_⟩
  show s.accepted ++ [text] = s.taken ++ (s.dbcmd.push text).content
  rw [Dbcmd.content_push h.wf, h.accepted, List.append_assoc]

theorem Accounted.takes {asked input : Text} (h : Accounted s) (ht : Takes s asked input s') :
    Accounted s' := by
  obtain ⟨db, saved, rfl, -⟩ := ht
  obtain ⟨hwf, hfirst, hrest⟩ := Dbcmd.pop_spec h.wf
  refine ⟨hwf, ?_⟩
  have htaken : (s.dbcmd.pop.1.toList ++ s.log.filterMap Taken.cmd).reverse =
      s.taken ++ s.dbcmd.pop.1.toList := by
    rw [List.reverse_append]
    cases s.dbcmd.pop.1 <;> rfl
  have hlog : (List.filterMap Taken.cmd (⟨asked, s.dbcmd.pop.1, saved⟩ :: s.log)) =
      s.dbcmd.pop.1.toList ++ s.log.filterMap Taken.cmd := by
    rw [List.filterMap_cons]
    cases s.dbcmd.pop.1 <;> rfl
  show s.accepted = (List.filterMap Taken.cmd (⟨asked, s.dbcmd.pop.1, saved⟩ :: s.log)).reverse ++
    s.dbcmd.pop.2.content
  rw [hlog, htaken, hrest, hfirst, h.accepted, List.append_assoc]
  cases s.dbcmd.content <;> rfl

theorem Accounted.did {a : Action} (h : Accounted s) (hd : Did s a s') : Accounted s' := by
  cases hd with
  | idle => exact h
  | sent => exact h.send _
  | took _ ht _ =>
    have h' := h.takes ht
    exact ⟨h'.wf, h'.accepted⟩
  | unread | lost | opened | openFailed | selected | refused => exact ⟨h.wf, h.accepted⟩

/-- The commands that were accepted are those that were taken from the queue and those that are in it. -/
theorem accounted {G : Backup → Action → Prop} (h : backup.ReachUnder G s) : Accounted s := by
  refine h.invariant Accounted ?_ ?_
  · rintro s ⟨db, rfl⟩
    exact ⟨Dbcmd.wf_initial, rfl⟩
  · intro s a s' _ hi _ hs
    exact hi.did (step_did hs)

/-! ## Every answer is read for its command -/

/-- No command comes in between `SELECT` and its answer, and Redis answers with an array to `HGETALL`
only. -/
def Orderly (s : Backup) : Action → Prop
  | .S _ | .L _ => ∀ wire, s.conn ≠ .selecting wire
  | .answer input => input.head? = some '*' → ∀ asked wire, s.conn = .up (asked :: wire) →
      ∃ key, '\n' ∉ key ∧ asked = loadCommand key
  | _ => True

/-- The answer was read for the command it belongs to. -/
def Taken.Right (t : Taken) : Prop := t.cmd = some t.asked

/-- What is answered is the queue, and every answer was read for its command. -/
structure InOrder (s : Backup) : Prop where
  accounted : Accounted s
  log : ∀ t ∈ s.log, t.Right ∧ ∀ key text, t.saved = some (key, text) → t.asked = loadCommand key
  wire : ∀ wire, s.conn = .up wire → wire = s.dbcmd.content
  selecting : ∀ wire, s.conn = .selecting wire → wire = []

theorem InOrder.send (h : InOrder s) (hfree : ∀ wire, s.conn ≠ .selecting wire) (text : Text) :
    InOrder (s.send text) := by
  refine ⟨h.accounted.send text, h.log, fun wire hw => ?_, fun wire hw => ?_⟩
  · show wire = (s.dbcmd.push text).content
    rw [Dbcmd.content_push h.accounted.wf]
    cases hc : s.conn with
    | up old =>
      have hsent : (s.send text).conn = .up (old ++ [text]) := by
        unfold Backup.send Backup.write
        simp only [hc]
      rw [hsent] at hw
      rw [← Conn.up.inj hw, h.wire old hc]
    | selecting old => exact absurd hc (hfree old)
    | opening | stopped =>
      unfold Backup.send Backup.write at hw
      simp only [hc] at hw
      cases hw
  · cases hc : s.conn with
    | selecting old => exact absurd hc (hfree old)
    | up | opening | stopped =>
      unfold Backup.send Backup.write at hw
      simp only [hc] at hw
      cases hw

/-- An answer to the first command of the wire is read for the first command of the queue. -/
theorem InOrder.took {input asked : Text} {wire : List Text} {t : Backup} {c : Conn} (h : InOrder s)
    (ho : Orderly s (.answer input)) (hconn : s.conn = .up (asked :: wire)) (ht : Takes s asked input t)
    (hc : c = .up wire ∨ c = .opening) : InOrder { t with conn := c } := by
  have hqueue : s.dbcmd.content = asked :: wire := (h.wire _ hconn).symm
  obtain ⟨hwf, hfirst, hrest⟩ := Dbcmd.pop_spec h.accounted.wf
  rw [hqueue] at hfirst hrest
  have hacc := h.accounted.takes ht
  obtain ⟨db, saved, rfl, hsaved⟩ := ht
  refine ⟨⟨hacc.wf, hacc.accepted⟩, ?_, ?_, ?_⟩
  · refine List.forall_mem_cons.mpr ⟨⟨hfirst, fun key text hk => ?_⟩, h.log⟩
    obtain ⟨harray, hkey⟩ := hsaved key text hk
    obtain ⟨key', hline, rfl⟩ := ho harray asked wire hconn
    rw [hfirst] at hkey
    rw [eq_of_keyOf hline hkey]
  · intro w hw
    rcases hc with rfl | rfl
    · exact (Conn.up.inj hw).symm.trans hrest.symm
    · cases hw
  · intro w hw
    rcases hc with rfl | rfl <;> cases hw

theorem InOrder.did {a : Action} (h : InOrder s) (ho : Orderly s a) (hd : Did s a s') : InOrder s' := by
  have hacc := h.accounted.did hd
  cases hd with
  | idle => exact h
  | sent ha =>
    rcases ha with ⟨key, rfl⟩ | ⟨key, rfl⟩ <;> exact h.send ho _
  | took hconn ht hc => exact h.took ho hconn ht hc
  | opened => exact ⟨hacc, h.log, by rintro w ⟨⟩, by rintro w ⟨⟩; rfl⟩
  | selected hconn =>
    -- nothing was written behind `SELECT`
    refine ⟨hacc, h.log, ?_, by rintro w ⟨⟩⟩
    rintro w ⟨⟩
    rw [h.selecting _ hconn]
    rfl
  | unread | lost | openFailed | refused => exact ⟨hacc, h.log, by rintro w ⟨⟩, by rintro w ⟨⟩⟩

/-- In a run where no command comes in between `SELECT` and its answer, whatever connections were lost:
every answer was read for the command it belongs to, what was saved under a key is what the key was asked
for, the commands that were accepted are those that are answered and those in the queue, each once and in
order, and the connection has the commands of the queue to answer. -/
theorem answers_right (h : backup.ReachUnder Orderly s) :
    (∀ t ∈ s.log, t.Right ∧ ∀ key text, t.saved = some (key, text) → t.asked = loadCommand key) ∧
      s.accepted = (s.log.map Taken.asked).reverse ++ s.dbcmd.content ∧
      ∀ wire, s.conn = .up wire → wire = s.dbcmd.content := by
  have hi : InOrder s := by
    refine h.invariant InOrder ?_ ?_
    · rintro s ⟨db, rfl⟩
      exact ⟨⟨Dbcmd.wf_initial, rfl⟩, by rintro t ⟨⟩, by rintro w ⟨⟩; rfl, by rintro w ⟨⟩⟩
    · intro s a s' _ hi ho hs
      exact hi.did ho (step_did hs)
  refine ⟨hi.log, ?_, hi.wire⟩
  have htaken : ∀ log : List Taken, (∀ t ∈ log, t.Right) → log.filterMap Taken.cmd = log.map Taken.asked := by
    intro log hlog
    induction log with
    | nil => rfl
    | cons t log ih =>
      obtain ⟨ht, hlog⟩ := List.forall_mem_cons.mp hlog
      rw [List.filterMap_cons, show t.cmd = some t.asked from ht, List.map_cons, ih hlog]
  rw [hi.accounted.accepted, Backup.taken, htaken s.log fun t ht => (hi.log t ht).1]

/-- The connection is lost before the key `k` is answered; then it is asked for again. -/
theorem answers_right_lost : ∃ s, backup.exec ⟨.initial, .empty, .up [], [], []⟩
      [.S ['k'], .lost, .opened, .selected, .answer (array [['f'], ['v']]), .L ['k']] = some s ∧
    s.db.get ['k'] = some (array ["HMSET".toList, ['k'], ['f'], ['v']]) ∧
    (∀ t ∈ s.log, t.Right ∧ ∀ key text, t.saved = some (key, text) → t.asked = loadCommand key) ∧
    s.accepted = (s.log.map Taken.asked).reverse ++ s.dbcmd.content ∧
    ∀ wire, s.conn = .up wire → wire = s.dbcmd.content := by
  have h0 : backup.ReachUnder Orderly ⟨.initial, .empty, .up [], [], []⟩ := .start ⟨_, rfl⟩
  have h1 := h0.step (a := .S ['k']) (by rintro w ⟨⟩) rfl
  have h2 := h1.step (a := .lost) (by exact trivial) rfl
  have h3 := h2.step (a := .opened) (by exact trivial) rfl
  have h4 := h3.step (a := .selected) (by exact trivial) rfl
  have h5 := h4.step (a := .answer (array [['f'], ['v']]))
    (by rintro - asked wire h; exact ⟨['k'], by decide, (List.cons.inj (Conn.up.inj h)).1.symm⟩) rfl
  have h6 := h5.step (a := .L ['k']) (by rintro w ⟨⟩) rfl
  exact ⟨_, rfl, rfl, answers_right h6⟩

/-! ## A command between `SELECT` and its answer -/

/-- What a connection is used for while it is up: commands and answers, in any order. -/
def Action.isTraffic : Action → Bool
  | .S _ | .L _ | .answer _ => true
  | _ => false

def Action.isAnswer : Action → Bool
  | .answer _ => true
  | _ => false

/-- While the server connects, commands do not change that, and no answer is read. -/
theorem traffic_opening {acts : List Action} (hacts : ∀ a ∈ acts, a.isTraffic = true)
    (hconn : s.conn = .opening) (he : backup.exec s acts = some s') : s'.conn = .opening := by
  induction acts generalizing s with
  | nil =>
    cases he
    exact hconn
  | cons a acts ih =>
    obtain ⟨ha, hacts⟩ := List.forall_mem_cons.mp hacts
    obtain ⟨t, hstep, hrest⟩ := Option.bind_eq_some_iff.mp he
    refine ih hacts ?_ hrest
    have hdid : Did s a t := step_did hstep
    cases hdid with
    | idle => exact hconn
    | sent =>
      unfold Backup.send Backup.write
      simp only [hconn]
    | took hup | unread hup => exact absurd (hconn.symm.trans hup) nofun
    | lost | opened | openFailed | selected | refused => exact absurd ha (by decide)

/-- A command goes to the end of the queue and to the end of the wire. -/
theorem send_up {wire : List Text} (hconn : s.conn = .up wire) (text : Text) :
    (s.send text).conn = .up (wire ++ [text]) := by
  unfold Backup.send Backup.write
  simp only [hconn]

/-- When the wire has at least as many commands as the queue, and all of them are answered in the end, then
every answer is read for its command if and only if the wire has the commands of the queue. Commands that
come in meanwhile do not matter: they go to the ends of both. -/
theorem traffic_right_iff {acts : List Action} {wire : List Text} (hacts : ∀ a ∈ acts, a.isTraffic = true)
    (hwf : s.dbcmd.WF) (hconn : s.conn = .up wire) (hlen : s.dbcmd.content.length ≤ wire.length)
    (he : backup.exec s acts = some s') (hend : s'.conn = .up []) :
    ∃ new, s'.log = new ++ s.log ∧ new.length = acts.countP Action.isAnswer ∧
      ((∀ t ∈ new, t.Right) ↔ wire = s.dbcmd.content) := by
  induction acts generalizing s wire with
  | nil =>
    cases he
    have hwire : wire = [] := Conn.up.inj (hconn.symm.trans hend)
    rw [hwire] at hlen ⊢
    have hempty : s'.dbcmd.content = [] := List.eq_nil_of_length_eq_zero (Nat.le_zero.mp hlen)
    exact ⟨[], rfl, rfl, fun _ => hempty.symm, fun _ t ht => nomatch ht⟩
  | cons a acts ih =>
    obtain ⟨ha, htail⟩ := List.forall_mem_cons.mp hacts
    obtain ⟨t, hstep, hrest⟩ := Option.bind_eq_some_iff.mp he
    have hreading : t.conn ≠ .opening := by
      intro ht
      have := traffic_opening htail ht hrest
      rw [hend] at this
      cases this
    have hdid : Did s a t := step_did hstep
    cases hdid with
    | idle => exact ih htail hwf hconn hlen hrest
    | @sent _ text hsent =>
      have hcontent := Dbcmd.content_push hwf text
      have hlen' : (s.dbcmd.push text).content.length ≤ (wire ++ [text]).length := by
        rw [hcontent, List.length_append, List.length_append]
        exact Nat.add_le_add_right hlen 1
      obtain ⟨new, hlog, hcount, hright⟩ := ih htail (hwf.push text) (send_up hconn text) hlen' hrest
      refine ⟨new, hlog, ?_, hright.trans ?_⟩
      · rw [hcount]
        rcases hsent with ⟨key, rfl⟩ | ⟨key, rfl⟩ <;> rfl
      · show wire ++ [text] = (s.dbcmd.push text).content ↔ _
        rw [hcontent]
        exact List.append_left_inj [text]
    | unread => exact absurd rfl hreading
    | @took input asked ws t c hconn' ht hc =>
      obtain rfl := Conn.up.inj (hconn.symm.trans hconn')
      obtain rfl : c = .up ws := hc.resolve_right hreading
      obtain ⟨db, saved, rfl, -⟩ := ht
      obtain ⟨hwf', hfirst, hcontent⟩ := Dbcmd.pop_spec hwf
      have hlen' : s.dbcmd.pop.2.content.length ≤ ws.length := by
        rw [hcontent, List.length_tail]
        rw [List.length_cons] at hlen
        omega
      obtain ⟨new, hlog, hcount, hright⟩ := ih htail hwf' rfl hlen' hrest
      refine ⟨new ++ [⟨asked, s.dbcmd.pop.1, saved⟩], ?_, ?_, ?_⟩
      · rw [hlog, List.append_assoc]
        rfl
      · rw [List.length_append, hcount, List.countP_cons_of_pos rfl]
        rfl
      · rw [List.forall_mem_append, hright, List.forall_mem_singleton]
        show ws = s.dbcmd.pop.2.content ∧ s.dbcmd.pop.1 = some asked ↔ asked :: ws = s.dbcmd.content
        rw [hcontent, hfirst]
        cases s.dbcmd.content with
        | nil => simp
        | cons c cs =>
          rw [List.head?_cons, List.tail_cons, List.cons_eq_cons, Option.some_inj, eq_comm (a := c), and_comm]
    | lost | opened | openFailed | selected | refused => exact absurd ha (by decide)

/-- When `SELECT` has been answered, commands and answers come in any order, and in the end all that was
written behind `SELECT` is answered, then every answer was read for the command it belongs to if and only if
no command had come in while `SELECT` was not answered. -/
theorem read_right_iff {late : List Text} {acts : List Action} (h : backup.Reach s)
    (hconn : s.conn = .selecting late) (hacts : ∀ a ∈ acts, a.isTraffic = true)
    (he : backup.exec s (.selected :: acts) = some s') (hend : s'.conn = .up []) :
    ∃ new, s'.log = new ++ s.log ∧ new.length = acts.countP Action.isAnswer ∧
      ((∀ t ∈ new, t.Right) ↔ late = []) := by
  have hstep : backup.step s .selected = some { s with conn := .up (late ++ s.dbcmd.content) } := by
    show s.step .selected = _
    rw [Backup.step, hconn]
  rw [Machine.exec_cons, hstep] at he
  have hlen : s.dbcmd.content.length ≤ (late ++ s.dbcmd.content).length := by
    rw [List.length_append]
    exact Nat.le_add_left _ _
  obtain ⟨new, hlog, hcount, hright⟩ := traffic_right_iff
    (s := { s with conn := .up (late ++ s.dbcmd.content) }) hacts (accounted h).wf rfl hlen he hend
  exact ⟨new, hlog, hcount, hright.trans List.append_left_eq_self⟩

/-- A key is asked for while `SELECT` is not answered, and another one when it is: the command of the first
is written twice, so the second answer is read for the command of the other key. -/
theorem read_right_iff_late : ∃ s s' : Backup, s.conn = .selecting [loadCommand ['k']] ∧
    s'.accepted = [loadCommand ['k'], loadCommand ['q']] ∧
    ∃ new, s'.log = new ++ s.log ∧ new.length = 3 ∧ ((∀ t ∈ new, t.Right) ↔ [loadCommand ['k']] = []) := by
  have h0 : backup.Reach ⟨.initial, .empty, .up [], [], []⟩ := .start ⟨_, rfl⟩
  have h1 := h0.step (a := .lost) (by exact trivial) rfl
  have h2 := h1.step (a := .opened) (by exact trivial) rfl
  have h3 := h2.step (a := .S ['k']) (by exact trivial) rfl
  let empty : Action := .answer "*0\r\n".toList
  exact ⟨_, _, rfl, rfl, @read_right_iff _ _ _ [empty, .S ['q'], empty, empty] h3 rfl
    (by decide) rfl rfl⟩

end AntServer.Common.Redisbackup
