import Sponge.Connection.Calls

/-!
# Connection/States — two ways to tell the state of a connection

`tcp_connection.cc` tells from the counters of its sender and receiver which state they are in, and
`tcp_state.cc` tells the same for the tests and for print-outs, with a decision tree of its own.
The two trees agree on every connection that can be reached without an error, and the answers that
stand for "none of these" are never given (`classifiers_agree`): the counters of a sender
(`TCPSender.Counted`) leave nothing between a stream with bytes to send and one that is sent with
its FIN.
-/

open Word64

/-! ## `TCPState::state_summary` -/

/-- The names of `namespace TCPReceiverStateSummary`. -/
inductive TCPReceiverStateSummary
  | error | listen | synRecv | finRecv
  deriving DecidableEq, Repr

/-- The names of `namespace TCPSenderStateSummary`. -/
inductive TCPSenderStateSummary
  | error | closed | synSent | synAcked | finSent | finAcked
  deriving DecidableEq, Repr

def TCPReceiverStateSummary.text : TCPReceiverStateSummary → String
  | .error => "error (connection was reset)"
  | .listen => "waiting for SYN: ackno is empty"
  | .synRecv => "SYN received (ackno exists), and input to stream hasn't ended"
  | .finRecv => "input to stream has ended"

def TCPSenderStateSummary.text : TCPSenderStateSummary → String
  | .error => "error (connection was reset)"
  | .closed => "waiting for stream to begin (no SYN sent)"
  | .synSent => "stream started but nothing acknowledged"
  | .synAcked => "stream ongoing"
  | .finSent => "stream finished (FIN sent) but not fully acknowledged"
  | .finAcked => "stream finished and fully acknowledged"

/-- The texts are what the source compares; they tell the names apart. -/
theorem TCPReceiverStateSummary.text_injective : Function.Injective text := by
  intro a b h
  cases a <;> cases b <;> first | rfl | exact absurd h (by decide)

theorem TCPSenderStateSummary.text_injective : Function.Injective text := by
  intro a b h
  cases a <;> cases b <;> first | rfl | exact absurd h (by decide)

/-- `TCPState::state_summary(const TCPReceiver &)`. -/
def TCPReceiver.stateSummary (receiver : TCPReceiver) : TCPReceiverStateSummary :=
  if receiver.streamOut.error then .error
  else if receiver.ackno.isNone then .listen
  else if receiver.streamOut.inputEnded then .finRecv
  else .synRecv

/-- `TCPState::state_summary(const TCPSender &)`. -/
def TCPSender.stateSummary (sender : TCPSender) : TCPSenderStateSummary :=
  if sender.stream.error then .error
  else if sender.nextSeqno = 0 then .closed
  else if sender.nextSeqno = sender.bytesInFlight then .synSent
  else if sender.stream.eof = false then .synAcked
  else if sender.nextSeqno < sender.stream.bytesWritten + 2 then .synAcked
  else if sender.bytesInFlight ≠ 0 then .finSent
  else .finAcked

/-- The name that the other classifier has for a state. -/
def ReceiverState.summary : ReceiverState → Option TCPReceiverStateSummary
  | .listening => some .listen
  | .synReceived => some .synRecv
  | .finRecv => some .finRecv
  | .unk => none

def SenderState.summary : SenderState → Option TCPSenderStateSummary
  | .closed => some .closed
  | .synSent => some .synSent
  | .synAcked => some .synAcked
  | .finSent => some .finSent
  | .finAcked => some .finAcked
  | .unknown => none

namespace TCPSender.Counted

variable {s : TCPSender}

theorem bytesInFlight_le (h : s.Counted) : s.bytesInFlight ≤ s.nextSeqno := by
  rcases Nat.lt_or_ge s.nextSeqno (2 ^ 64) with hlt | hge
  · rw [h.bytesInFlight_eq hlt]
    exact Nat.sub_le _ _
  · exact s.bytesInFlight_lt.le.trans hge

/-- **All numbers are used up only by a sender that has sent its FIN**, and so all that was
written. -/
theorem sent_of_nextSeqno_eq (h : s.Counted) (hnext : s.nextSeqno = s.stream.bytesWritten + 2) :
    s.finFlag = true ∧ s.stream.buf = [] := by
  have hsum := h.next
  have hcount := h.bounded.count
  have hsyn := s.synFlag.toNat_le
  have hfin := s.finFlag.toNat_le
  refine ⟨?_, List.length_eq_zero_iff.mp (by omega)⟩
  by_contra hno
  simp only [Bool.not_eq_true] at hno
  rw [hno, Bool.toNat_false] at hsum
  omega

theorem sendBase_eq_of_bytesInFlight (h : s.Counted) (hlt : s.nextSeqno < 2 ^ 64)
    (hzero : s.bytesInFlight = 0) : s.sendBase = s.nextSeqno := by
  have hbase := h.base
  rw [h.bytesInFlight_eq hlt] at hzero
  omega

end TCPSender.Counted

namespace TCPConnection

variable {c : TCPConnection} {cfg : TCPConfig}

/-- The sender's two classifiers agree, whatever has been called. -/
theorem sState_summary (h : c.sender.Counted) (hok : c.sender.stream.error = false) :
    c.sState.summary = some c.sender.stateSummary := by
  have hsame : c.bytesInFlight = c.sender.bytesInFlight := rfl
  have hflight := h.bytesInFlight_le
  have hnext := h.nextSeqno_le
  simp only [sState, TCPSender.stateSummary, ← hsame, hok, Bool.false_eq_true, if_false]
  by_cases hzero : c.sender.nextSeqno = 0
  · rw [if_pos hzero, if_pos hzero]
    rfl
  by_cases hsyn : c.sender.nextSeqno = c.bytesInFlight
  · rw [if_neg hzero, if_neg hzero, if_pos hsyn, if_pos hsyn]
    rfl
  rw [if_neg hzero, if_neg hzero, if_neg hsyn, if_neg hsyn]
  cases heof : c.sender.stream.eof with
  | false =>
    rw [if_pos (Or.inl ⟨by omega, rfl⟩), if_pos rfl]
    rfl
  | true =>
    have hno : ¬ true = false := by simp
    by_cases hlt : c.sender.nextSeqno < c.sender.stream.bytesWritten + 2
    · rw [if_pos (Or.inr ⟨rfl, hlt⟩), if_neg hno, if_pos hlt]
      rfl
    · -- the counters leave no number past the FIN's
      rw [if_neg (by simp [hlt]), if_neg hno, if_neg hlt, if_pos ⟨rfl, by omega⟩]
      split_ifs <;> first | rfl | omega

theorem rState_summary (hok : c.receiver.streamOut.error = false) :
    c.rState.summary = some c.receiver.stateSummary := by
  simp only [rState, TCPReceiver.stateSummary, hok, Bool.false_eq_true, if_false]
  cases c.receiver.ackno <;> cases c.receiver.streamOut.inputEnded <;> rfl

theorem sState_eq_finAcked (h : c.sState = .finAcked) :
    c.sender.nextSeqno = c.sender.stream.bytesWritten + 2 ∧ c.sender.bytesInFlight = 0 := by
  unfold sState at h
  split_ifs at h with _ _ _ heof hflight
  exact ⟨heof.2, Nat.eq_zero_of_not_pos hflight⟩

/-- **The two classifiers agree.**  In every run and as long as neither stream has an error, they
name the same states, and neither gives the answer that no state has; and `fin_acked` says that all
bytes written and the FIN have been acknowledged. -/
theorem classifiers_agree (h : Reach call (fun _ _ => True) (new cfg) c)
    (herror : c.sender.stream.error = false ∧ c.receiver.streamOut.error = false) :
    (c.sState.summary = some c.sender.stateSummary ∧ c.sState ≠ .unknown) ∧
    (c.rState.summary = some c.receiver.stateSummary ∧ c.rState ≠ .unk) ∧
    (c.sState = .finAcked → c.sender.finFlag = true ∧ c.sender.stream.buf = [] ∧
      (c.sender.stream.bytesWritten + 2 < 2 ^ 64 →
        c.sender.sendBase = c.sender.stream.bytesWritten + 2)) := by
  have hcount := (reach_idle h).counted
  have hsender := sState_summary hcount herror.1
  have hreceiver := rState_summary herror.2
  refine ⟨⟨hsender, fun hno => ?_⟩, ⟨hreceiver, fun hno => ?_⟩, fun hfin => ?_⟩
  · rw [hno] at hsender
    cases hsender
  · rw [hno] at hreceiver
    cases hreceiver
  · obtain ⟨hnext, hzero⟩ := sState_eq_finAcked hfin
    obtain ⟨hsent, hempty⟩ := hcount.sent_of_nextSeqno_eq hnext
    refine ⟨hsent, hempty, fun hlt => ?_⟩
    rw [← hnext] at hlt ⊢
    exact hcount.sendBase_eq_of_bytesInFlight hlt hzero

/-- One byte is written and the stream ended, and the FIN goes with the byte; then both are
acknowledged. -/
theorem classifiers_agree_run : ∃ c, Reach call (fun _ _ => True) (new { isn := ⟨7⟩ }) c ∧
    c.sState = .finAcked ∧ c.sender.stateSummary = .finAcked ∧ c.sender.sendBase = 3 := by
  obtain ⟨c, hr, hp⟩ := exists_reach_of_exec call (fun _ _ => True) (new { isn := ⟨7⟩ })
    [.connect, .write [97], .endInputStream,
      .segmentReceived { header := { syn := true, ack := true, ackno := ⟨8⟩, win := 10 } },
      .segmentReceived { header := { seqno := ⟨1⟩, ack := true, ackno := ⟨10⟩, win := 10 } }]
    (fun c => c.sState == .finAcked && c.sender.stream.bytesWritten == 1 &&
      !c.sender.stream.error && !c.receiver.streamOut.error) (by decide)
  simp only [Bool.and_eq_true, Bool.not_eq_true', beq_iff_eq] at hp
  obtain ⟨⟨⟨hfin, hwritten⟩, hout⟩, hin⟩ := hp
  obtain ⟨⟨hsender, -⟩, -, hacked⟩ := classifiers_agree hr ⟨hout, hin⟩
  rw [hfin] at hsender
  rw [hwritten] at hacked
  exact ⟨c, hr, hfin, (Option.some.inj hsender).symm, (hacked hfin).2.2 (by decide)⟩

end TCPConnection
