import DistributedOj.Comm.Lines
import DistributedOj.CompileServer.HostStatus

/-!
# `get_active_connections`

The rows of `/proc/net/tcp` with `0A` anywhere in them are counted
(`getActiveConnections_eq`), where `ESTABLISHED` is the state `01`. The two
counts agree iff as many rows are counted wrongly as are missed
(`active_connections_iff`): a listening socket, whose state is `0A`, counts, and a
connection counts only by chance.
-/

namespace OJ.CompileServer

open OJ.Comm Stream

/-! ## `/proc/net/tcp` -/

def tcpHeader : Str :=
  "  sl  local_address rem_address   st tx_queue rx_queue tr tm->when retrnsmt   uid  timeout inode".toList

structure TcpRow where
  line : Str
  sl : Str
  localAddress : Str
  remAddress : Str
  st : Str
  rest : List Str
  words_eq : words line = sl :: localAddress :: remAddress :: st :: rest

namespace TcpRow

def fields (r : TcpRow) : List Str := r.sl :: r.localAddress :: r.remAddress :: r.st :: r.rest

/-- `TCP_ESTABLISHED`. -/
def established (r : TcpRow) : Bool := r.st = "01".toList

/-- One of the fields has `0A` in it. -/
def has0A (r : TcpRow) : Bool := r.fields.any (contains · "0A".toList)

end TcpRow

structure NetTcp where
  text : Str
  rows : List TcpRow
  lines_eq : getline text = tcpHeader :: rows.map TcpRow.line

/-! ## The loop -/

theorem countLines_eq (lines : List Str) {count : Nat} (hcount : count < 2 ^ 31) :
    countLines count lines =
      if count + lines.countP (contains · "0A".toList) < 2 ^ 31 then
        some (count + lines.countP (contains · "0A".toList))
      else none := by
  induction lines generalizing count with
  | nil => exact (if_pos hcount).symm
  | cons line lines ih =>
    rw [countLines, List.countP_cons]
    by_cases h : contains line "0A".toList
    · rw [if_pos h, if_pos h]
      by_cases hlt : count + 1 < 2 ^ 31
      · rw [if_pos hlt, ih hlt, Nat.add_right_comm, Nat.add_assoc]
      · rw [if_neg hlt, if_neg (by omega)]
    · rw [if_neg h, if_neg h, ih hcount, Nat.add_zero]

theorem contains_tcpRow (r : TcpRow) : contains r.line "0A".toList = r.has0A := by
  refine Bool.eq_iff_iff.mpr ?_
  rw [contains, decide_eq_true_iff, infix_iff_words (by decide) (by decide), r.words_eq,
    TcpRow.has0A, List.any_eq_true]
  simp only [contains, decide_eq_true_iff, TcpRow.fields]

/-- The rows with `0A` in a field are counted. -/
theorem getActiveConnections_eq (t : NetTcp) : getActiveConnections t.text =
    if t.rows.countP TcpRow.has0A < 2 ^ 31 then some (t.rows.countP TcpRow.has0A) else none := by
  have hheader : contains tcpHeader "0A".toList = false := by decide +kernel
  have hcount : (getline t.text).countP (contains · "0A".toList) = t.rows.countP TcpRow.has0A := by
    rw [t.lines_eq, List.countP_cons, hheader, List.countP_map]
    exact congrArg (List.countP · t.rows) (funext contains_tcpRow)
  rw [getActiveConnections, countLines_eq _ (by decide), hcount, Nat.zero_add]

/-- Two counts, each with what only the other one counts. -/
theorem countP_add_countP {α : Type} (p q : α → Bool) (l : List α) :
    l.countP p + l.countP (fun a => q a && !p a) = l.countP q + l.countP fun a => p a && !q a := by
  induction l with
  | nil => rfl
  | cons a l ih =>
    simp only [List.countP_cons]
    cases p a <;> cases q a <;> simp <;> omega

/-- The established connections are counted iff as many rows that are not
established have `0A` in a field as established rows have not, and an `int` can
hold the number. -/
theorem active_connections_iff (t : NetTcp) :
    getActiveConnections t.text = some (t.rows.countP TcpRow.established) ↔
      (t.rows.countP fun r => r.has0A && !r.established) =
          (t.rows.countP fun r => r.established && !r.has0A) ∧
        t.rows.countP TcpRow.established < 2 ^ 31 := by
  have hadd := countP_add_countP TcpRow.has0A TcpRow.established t.rows
  rw [getActiveConnections_eq]
  split
  · next hlt =>
    rw [Option.some_inj]
    omega
  · next hlt =>
    refine iff_of_false nofun fun h => hlt ?_
    omega

def TcpRow.listening : TcpRow where
  line := "   0: 00000000:1F90 00000000:0000 0A 00000000:00000000 00:00000000 00000000 1000 0 31337 1".toList
  sl := "0:".toList
  localAddress := "00000000:1F90".toList
  remAddress := "00000000:0000".toList
  st := "0A".toList
  rest := ["00000000:00000000", "00:00000000", "00000000", "1000", "0", "31337", "1"].map String.toList
  words_eq := by decide +kernel

def NetTcp.listening : NetTcp where
  text := [tcpHeader, TcpRow.listening.line].flatMap (· ++ ['\n'])
  rows := [.listening]
  lines_eq := getline_flatMap (by decide +kernel)

/-- A server with no connection: its listening socket counts. -/
theorem not_active_connections : getActiveConnections NetTcp.listening.text = some 1 ∧
    getActiveConnections NetTcp.listening.text ≠
      some (NetTcp.listening.rows.countP TcpRow.established) := by
  rw [getActiveConnections_eq]
  decide +kernel

end OJ.CompileServer
