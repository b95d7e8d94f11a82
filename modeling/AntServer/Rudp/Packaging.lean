/-
# AntServer.Rudp.Packaging — what goes out, and how it is cut into packages

`gen_outpackage` writes bytes into a buffer and closes it when the next segment has no room in it. What it
writes is a row of segments (`content`): the requests for the gaps of the receive queue, the replies to what
the other end asks for, and the messages of the send queue. How the row is cut into packages (`split`) does
not depend on where its segments come from. The packages are these pieces, byte for byte
(`genOutpackage_eq`), so that who reads them one after the other reads the row.
-/
import AntServer.Rudp.Segments

namespace AntServer.Rudp

open Lib

/-! ## The row of segments -/

/-- A message as a segment. -/
def Message.segment (m : Message) : Segment Int := .normal m.id ⟨m.buffer, m.size_le⟩

/-- `n` requests from the number `id` on. -/
def gapRequests (id : Int) : Nat → List (Segment Int)
  | 0 => []
  | n + 1 => .request id :: gapRequests (id + 1) n

/-- The requests for the numbers that are missing from `id` on, before and between those of the queue. -/
def missingRequests (id : Int) : List Received → List (Segment Int)
  | [] => []
  | m :: rest => gapRequests id (m.id - id).toNat ++ missingRequests (m.id + 1) rest

/-- The replies to the numbers that are asked for, by one walk over the history. -/
def replies (recvIdMin : Int) : List Int → List Message → List (Segment Int)
  | [], _ => []
  | id :: rest, history =>
    if id < recvIdMin then replies recvIdMin rest history
    else
      match history.dropWhile fun m => m.id < id with
      | [] => .missing id :: replies recvIdMin rest []
      | m :: history =>
        (if id < m.id then .missing id else m.segment) :: replies recvIdMin rest (m :: history)

/-- What an end has to send. -/
def content (U : Rudp) : List (Segment Int) :=
  missingRequests U.recvIdMin U.recvQueue ++ replies U.recvIdMin U.sendAgain U.sendHistory ++
    U.sendQueue.map Message.segment

/-- What it sends: a heartbeat when there is nothing. -/
def outgoing (U : Rudp) : List (Segment Int) := if content U = [] then [.ignore] else content U

/-! ## The cut into packages -/

/-- Segments as they are packed. -/
def encode (segments : List (Segment Int)) : Bytes :=
  wire.writeAll (segments.map (Segment.map lowBytes))

@[simp] theorem encode_nil : encode [] = [] := rfl

/-- The bytes of two rows of segments. -/
theorem encode_append (segs segs' : List (Segment Int)) :
    encode (segs ++ segs') = encode segs ++ encode segs' := by
  unfold encode
  rw [List.map_append, wire.writeAll_append]

/-- The bytes of one segment, of whose number the low bytes are kept. -/
theorem encode_singleton (s : Segment Int) : encode [s] = writeSegment (s.map lowBytes) := by
  show writeSegment _ ++ [] = _
  exact List.append_nil _

/-- Every segment has bytes. -/
theorem encode_eq_nil {segs : List (Segment Int)} : encode segs = [] ↔ segs = [] := by
  constructor
  · intro h
    cases segs with
    | nil => rfl
    | cons s segs =>
      have hs := (List.append_eq_nil_iff.mp (h : writeSegment (s.map lowBytes) ++ _ = [])).1
      exact absurd hs (wire.write_ne_nil _)
  · rintro rfl
    rfl

/-- The segments of a package, read back. -/
theorem readAll_encode (segs : List (Segment Int)) :
    wire.readAll (encode segs) = (segs.map (Segment.map lowBytes), []) := wire.readAll_writeAll _

/-- The room that is asked for before a segment is packed. -/
def need : Segment Int → Nat
  | .normal _ payload => 4 + payload.1.length
  | _ => 3

/-- The segments of the package that is filled, and of those that are full. -/
structure Draft where
  cur : List (Segment Int)
  full : List (List (Segment Int))

namespace Draft

/-- The bytes of a draft. -/
def tmp (d : Draft) : TmpBuffer := ⟨encode d.cur, d.full.map encode⟩

/-- The package is full. -/
def flush (d : Draft) : Draft := ⟨[], d.full ++ [d.cur]⟩

/-- One more segment: in the package if there is room for it, in the next one if not, in one of its own
if no package has room for it. -/
def pack (d : Draft) (s : Segment Int) : Draft :=
  if need s > generalPackage then
    let d := if d.cur = [] then d else d.flush
    ⟨d.cur, d.full ++ [[s]]⟩
  else
    let d := if generalPackage - (encode d.cur).length < need s then d.flush else d
    ⟨d.cur ++ [s], d.full⟩

/-- All segments of a draft. -/
def all (d : Draft) : List (Segment Int) := d.full.flatten ++ d.cur

/-- `new_package` closes the package. -/
theorem flush_tmp (d : Draft) : d.flush.tmp = newPackage d.tmp := by
  show TmpBuffer.mk _ ((d.full ++ [d.cur]).map encode) = TmpBuffer.mk _ _
  rw [List.map_append]
  rfl

/-- Nothing is lost there. -/
theorem all_flush (d : Draft) : d.flush.all = d.all := by
  show (d.full ++ [d.cur]).flatten ++ [] = _
  rw [List.flatten_append, List.append_nil, List.flatten_singleton]
  rfl

/-- Nothing is lost, and nothing changes its place. -/
theorem all_pack (d : Draft) (s : Segment Int) : (d.pack s).all = d.all ++ [s] := by
  unfold pack
  split
  · dsimp only
    split
    · rename_i hcur
      simp only [all, hcur, List.flatten_append, List.append_nil, List.flatten_singleton]
    · rw [← d.all_flush]
      simp only [all, flush, List.flatten_append, List.append_nil, List.flatten_singleton]
  · dsimp only
    split
    · rw [← d.all_flush]
      exact (List.append_assoc _ _ _).symm
    · exact (List.append_assoc _ _ _).symm

/-- Nothing is lost in a row of segments either. -/
theorem all_foldl (segs : List (Segment Int)) (d : Draft) : (segs.foldl pack d).all = d.all ++ segs := by
  induction segs generalizing d with
  | nil => exact (List.append_nil _).symm
  | cons s segs ih =>
    rw [List.foldl_cons, ih, all_pack, List.append_assoc]
    rfl

/-- One more segment of a size that a package has room for. -/
theorem tmp_pack {d : Draft} {s : Segment Int} (h : need s ≤ generalPackage) :
    (d.pack s).tmp =
      let t := if generalPackage - d.tmp.buf.length < need s then newPackage d.tmp else d.tmp
      { t with buf := t.buf ++ writeSegment (s.map lowBytes) } := by
  unfold pack
  rw [if_neg (Nat.not_lt.mpr h)]
  show TmpBuffer.mk (encode (_ ++ [s])) _ = _
  rw [encode_append, encode_singleton]
  by_cases hroom : generalPackage - (encode d.cur).length < need s
  · simp only [hroom, if_true, tmp]
    exact congrArg (fun t : TmpBuffer => { t with buf := t.buf ++ writeSegment (s.map lowBytes) }) d.flush_tmp
  · simp only [hroom, if_false, tmp]

theorem three_le : 3 ≤ generalPackage := by decide

/-- `pack_request` of a request. -/
theorem packRequest_tmp (d : Draft) (id : Int) :
    packRequest d.tmp id typeRequest = (d.pack (.request id)).tmp :=
  (tmp_pack (s := .request id) three_le).symm

/-- `pack_request` of a missing message. -/
theorem packMissing_tmp (d : Draft) (id : Int) :
    packRequest d.tmp id typeMissing = (d.pack (.missing id)).tmp :=
  (tmp_pack (s := .missing id) three_le).symm

/-- `pack_message`. -/
theorem packMessage_tmp (d : Draft) (m : Message) : packMessage d.tmp m = (d.pack m.segment).tmp := by
  have hbytes : fillHeader (m.buffer.length + typeNormal) m.id ++ m.buffer =
      writeSegment (m.segment.map lowBytes) := by
    rw [fillHeader_eq, List.append_assoc]
    rfl
  have hneed : need m.segment = 4 + m.buffer.length := rfl
  have hgeneral : generalPackage = 128 := rfl
  unfold packMessage
  rw [hbytes]
  by_cases hbig : m.buffer.length > generalPackage - 4
  · have hover : need m.segment > generalPackage := by
      rw [hneed]
      omega
    rw [if_pos hbig]
    unfold pack
    rw [if_pos hover]
    by_cases hcur : d.cur = []
    · have hlen : ¬ d.tmp.buf.length > 0 := by
        show ¬ (encode d.cur).length > 0
        rw [hcur]
        exact Nat.lt_irrefl 0
      dsimp only
      rw [if_neg hlen, if_pos hcur]
      simp only [tmp, List.map_append, List.map_cons, List.map_nil, encode_singleton]
    · have hlen : d.tmp.buf.length > 0 := by
        apply List.length_pos_iff.mpr
        intro h
        exact hcur (encode_eq_nil.mp h)
      dsimp only
      rw [if_pos hlen, if_neg hcur]
      simp only [← flush_tmp]
      simp only [tmp, List.map_append, List.map_cons, List.map_nil, encode_singleton]
  · have hfits : need m.segment ≤ generalPackage := by
      rw [hneed]
      omega
    rw [if_neg hbig, tmp_pack hfits]
    rfl

/-- The requests for one gap. -/
theorem requestRange_tmp (d : Draft) (id : Int) (n : Nat) :
    requestRange d.tmp id n = ((gapRequests id n).foldl pack d).tmp := by
  induction n generalizing d id with
  | zero => rfl
  | succ n ih =>
    show requestRange (packRequest d.tmp id typeRequest) (id + 1) n = _
    rw [packRequest_tmp, ih]
    rfl

/-- `reply_request`. -/
theorem replyRequest_tmp (recvIdMin : Int) (ids : List Int) (history : List Message) (d : Draft) :
    replyRequest recvIdMin d.tmp ids history = ((replies recvIdMin ids history).foldl pack d).tmp := by
  induction ids generalizing history d with
  | nil => rfl
  | cons id ids ih =>
    rw [replyRequest, replies]
    by_cases hold : id < recvIdMin
    · rw [if_pos hold, if_pos hold, ih]
    rw [if_neg hold, if_neg hold]
    cases history.dropWhile fun m => m.id < id with
    | nil =>
      dsimp only
      rw [packMissing_tmp, ih]
      rfl
    | cons m history =>
      dsimp only
      by_cases hlt : id < m.id
      · rw [if_pos hlt, if_pos hlt, packMissing_tmp, ih]
        rfl
      · rw [if_neg hlt, if_neg hlt, packMessage_tmp, ih]
        rfl

/-- `send_message`. -/
theorem sendMessage_tmp (queue : List Message) (d : Draft) :
    sendMessage d.tmp queue = ((queue.map Message.segment).foldl pack d).tmp := by
  unfold sendMessage
  induction queue generalizing d with
  | nil => rfl
  | cons m queue ih =>
    rw [List.foldl_cons, packMessage_tmp, ih]
    rfl

end Draft

/-! ## The packages -/

/-- The numbers of the queue go up from `id` on: what `request_missing` asserts. -/
def Ascending (id : Int) : List Received → Prop
  | [] => True
  | m :: rest => id ≤ m.id ∧ Ascending (m.id + 1) rest

/-- `request_missing`, of a queue whose numbers ascend. -/
theorem requestMissing_of_ascending {id : Int} {queue : List Received} (h : Ascending id queue)
    (d : Draft) :
    requestMissing d.tmp id queue = some ((missingRequests id queue).foldl Draft.pack d).tmp := by
  induction queue generalizing id d with
  | nil => rfl
  | cons m queue ih =>
    rw [requestMissing, if_pos h.1, Draft.requestRange_tmp, ih h.2, missingRequests, List.foldl_append]

/-- Of another queue its assertion fails. -/
theorem requestMissing_of_not_ascending {id : Int} {queue : List Received} (h : ¬ Ascending id queue)
    (tmp : TmpBuffer) : requestMissing tmp id queue = none := by
  induction queue generalizing id tmp with
  | nil => exact absurd trivial h
  | cons m queue ih =>
    rw [requestMissing]
    by_cases hid : m.id ≥ id
    · rw [if_pos hid]
      exact ih (fun hrest => h ⟨hid, hrest⟩) _
    · rw [if_neg hid]

/-- The row of segments, cut into packages. -/
def split (segs : List (Segment Int)) : List (List (Segment Int)) :=
  let d := segs.foldl Draft.pack ⟨[], []⟩
  (if d.full = [] ∧ d.cur = [] then Draft.flush ⟨[.ignore], []⟩ else d.flush).full

/-- What is left when the packages are handed over. -/
def handOver (U : Rudp) : Rudp :=
  { U with sendAgain := [], sendHistory := U.sendHistory ++ U.sendQueue, sendQueue := [] }

/-- The last package is closed. -/
theorem closeTmp_tmp (segs : List (Segment Int)) :
    closeTmp (segs.foldl Draft.pack ⟨[], []⟩).tmp = (split segs).map encode := by
  unfold split
  generalize segs.foldl Draft.pack ⟨[], []⟩ = d
  have hiff : d.tmp.packages = [] ∧ d.tmp.buf = [] ↔ d.full = [] ∧ d.cur = [] := by
    show d.full.map encode = [] ∧ encode d.cur = [] ↔ _
    rw [List.map_eq_nil_iff, encode_eq_nil]
  unfold closeTmp
  by_cases h : d.full = [] ∧ d.cur = []
  · rw [if_pos (hiff.mpr h)]
    dsimp only
    rw [if_pos h]
    rfl
  · rw [if_neg (fun h' => h (hiff.mp h'))]
    dsimp only
    rw [if_neg h, ← Draft.flush_tmp]
    rfl

/-- `gen_outpackage` fails when the numbers of the queue do not go up, and gives the pieces of the row
when they do. -/
theorem genOutpackage_eq (U : Rudp) (h : Ascending U.recvIdMin U.recvQueue) :
    genOutpackage U = some ((split (content U)).map encode, handOver U) := by
  unfold genOutpackage
  have hmissing := requestMissing_of_ascending h ⟨[], []⟩
  rw [show (⟨[], []⟩ : TmpBuffer) = Draft.tmp ⟨[], []⟩ from rfl, hmissing, Option.map_some,
    Draft.replyRequest_tmp, Draft.sendMessage_tmp, ← List.foldl_append, ← List.foldl_append, closeTmp_tmp]
  rw [← List.append_assoc]
  rfl

/-- Then nothing is packed. -/
theorem genOutpackage_none {U : Rudp} (h : ¬ Ascending U.recvIdMin U.recvQueue) :
    genOutpackage U = none := by
  unfold genOutpackage
  rw [requestMissing_of_not_ascending h, Option.map_none]

/-- The pieces make up the row again, and a heartbeat is all there is when it is empty. -/
theorem flatten_split (segs : List (Segment Int)) :
    (split segs).flatten = if segs = [] then [.ignore] else segs := by
  by_cases hsegs : segs = []
  · subst hsegs
    rfl
  have hall : (segs.foldl Draft.pack ⟨[], []⟩).all = segs := Draft.all_foldl segs ⟨[], []⟩
  rw [if_neg hsegs]
  unfold split
  generalize segs.foldl Draft.pack ⟨[], []⟩ = d at hall
  have hsome : ¬ (d.full = [] ∧ d.cur = []) := by
    rintro ⟨hfull, hcur⟩
    apply hsegs
    rw [← hall, Draft.all, hfull, hcur]
    rfl
  dsimp only
  rw [if_neg hsome]
  have hflush := d.all_flush
  rw [Draft.all, show d.flush.cur = [] from rfl, List.append_nil, hall] at hflush
  exact hflush

/-! ## The size of a package -/

/-- A package is within the general size, or it is one message that is larger. -/
def Fits (segs : List (Segment Int)) : Prop :=
  (encode segs).length ≤ generalPackage ∨
    ∃ id payload, segs = [.normal id payload] ∧ (encode segs).length = 4 + payload.1.length

theorem length_encode_singleton_le (s : Segment Int) : (encode [s]).length ≤ need s := by
  rw [encode_singleton]
  cases s with
  | ignore => decide
  | request id => exact le_of_eq rfl
  | missing id => exact le_of_eq rfl
  | normal id payload =>
    show (headBytes _ ++ _ :: _ :: payload.1).length ≤ 4 + payload.1.length
    rw [List.length_append, length_headBytes]
    simp only [List.length_cons]
    split <;> omega

/-- A segment that is too big for a package has one of its own. -/
theorem fits_big {s : Segment Int} (h : need s > generalPackage) : Fits [s] := by
  have hgeneral : generalPackage = 128 := rfl
  cases s with
  | ignore => exact absurd h (by decide)
  | request id => exact absurd h (Nat.not_lt.mpr Draft.three_le)
  | missing id => exact absurd h (Nat.not_lt.mpr Draft.three_le)
  | normal id payload =>
    refine .inr ⟨id, payload, rfl, ?_⟩
    have hneed : need (.normal id payload) = 4 + payload.1.length := rfl
    rw [encode_singleton]
    show (headBytes (payload.1.length + 4) ++ _ :: _ :: payload.1).length = _
    rw [List.length_append, length_headBytes, if_neg (by omega)]
    simp only [List.length_cons]
    omega

/-- Every package of a draft fits, also the one that is filled. -/
structure Draft.Sized (d : Draft) : Prop where
  cur : (encode d.cur).length ≤ generalPackage
  full : ∀ segs ∈ d.full, Fits segs

/-- A package is closed. -/
theorem Draft.Sized.flush {d : Draft} (h : d.Sized) : d.flush.Sized where
  cur := Nat.zero_le _
  full segs hmem := by
    rcases List.mem_append.mp hmem with hmem | hmem
    · exact h.full segs hmem
    · rw [List.mem_singleton.mp hmem]
      exact .inl h.cur

/-- A segment is packed. -/
theorem Draft.Sized.pack {d : Draft} (h : d.Sized) (s : Segment Int) : (d.pack s).Sized := by
  unfold Draft.pack
  by_cases hbig : need s > generalPackage
  · have hd : (if d.cur = [] then d else d.flush).Sized := by
      split
      · exact h
      · exact h.flush
    rw [if_pos hbig]
    refine ⟨hd.cur, fun segs hmem => ?_⟩
    rcases List.mem_append.mp hmem with hmem | hmem
    · exact hd.full segs hmem
    · rw [List.mem_singleton.mp hmem]
      exact fits_big hbig
  · rw [if_neg hbig]
    have hone := length_encode_singleton_le s
    by_cases hroom : generalPackage - (encode d.cur).length < need s
    · simp only [hroom, if_true]
      refine ⟨?_, h.flush.full⟩
      show (encode ([] ++ [s])).length ≤ generalPackage
      rw [List.nil_append]
      omega
    · simp only [hroom, if_false]
      refine ⟨?_, h.full⟩
      have hcur := h.cur
      rw [encode_append, List.length_append]
      omega

/-- No package is larger than `GENERAL_PACKAGE`, unless it is one message that has no room in one. -/
theorem fits_split (segs : List (Segment Int)) : ∀ piece ∈ split segs, Fits piece := by
  have hfold (d : Draft) (h : d.Sized) : (segs.foldl Draft.pack d).Sized := by
    induction segs generalizing d with
    | nil => exact h
    | cons s segs ih => exact ih _ (h.pack s)
  have hempty : Draft.Sized ⟨[], []⟩ := ⟨Nat.zero_le _, fun _ h => absurd h List.not_mem_nil⟩
  have hd := hfold _ hempty
  unfold split
  dsimp only
  split
  · intro piece hmem
    rw [List.mem_singleton.mp hmem]
    exact .inl (by decide)
  · exact hd.flush.full

/-! ## Written and read again -/

/-- The packages that `gen_outpackage` gives are read, one after the other, as the row of segments that
was to be sent, with nothing left of any of them, and each of them is within its bound. -/
theorem genOutpackage_read {U U' : Rudp} {packages : List Bytes}
    (h : genOutpackage U = some (packages, U')) :
    packages.flatMap (fun p => (wire.readAll p).1) = (outgoing U).map (Segment.map lowBytes) ∧
      ∀ p ∈ packages, (wire.readAll p).2 = [] ∧
        (p.length ≤ generalPackage ∨ ∃ id payload,
          (wire.readAll p).1 = [.normal id payload] ∧ p.length = 4 + payload.1.length) := by
  have hasc : Ascending U.recvIdMin U.recvQueue := by
    by_contra hn
    rw [genOutpackage_none hn] at h
    cases h
  rw [genOutpackage_eq U hasc] at h
  obtain ⟨rfl, -⟩ := Prod.mk.inj (Option.some.inj h)
  constructor
  · rw [List.flatMap_map]
    have hread : (fun segs : List (Segment Int) => (wire.readAll (encode segs)).1) =
        fun segs => segs.map (Segment.map lowBytes) := funext fun segs => by rw [readAll_encode]
    rw [hread, List.flatMap_def, ← List.map_flatten, flatten_split]
    rfl
  · intro p hp
    obtain ⟨piece, hpiece, rfl⟩ := List.mem_map.mp hp
    rw [readAll_encode]
    refine ⟨rfl, ?_⟩
    rcases fits_split _ piece hpiece with hle | ⟨id, payload, rfl, hlen⟩
    · exact .inl hle
    · exact .inr ⟨lowBytes id, payload, rfl, hlen⟩

theorem genOutpackage_read_message : ∃ U packages U', rudpSend (rudpNew 1 5) [1, 2, 3] = some U ∧
    genOutpackage U = some (packages, U') ∧ packages = [[7, 0, 0, 1, 2, 3]] ∧
    packages.flatMap (fun p => (wire.readAll p).1) = (outgoing U).map (Segment.map lowBytes) := by
  have hgen : ∃ U packages U', rudpSend (rudpNew 1 5) [1, 2, 3] = some U ∧
      genOutpackage U = some (packages, U') ∧ packages = [[7, 0, 0, 1, 2, 3]] :=
    ⟨_, _, _, rfl, rfl, rfl⟩
  obtain ⟨U, packages, U', hsend, hout, hbytes⟩ := hgen
  exact ⟨U, packages, U', hsend, hout, hbytes, (genOutpackage_read hout).1⟩

end AntServer.Rudp
