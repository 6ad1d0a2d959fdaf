import AtlasLob.Spec.Invariant

/-!
# What a command can do

Every way a command can end in a valid market, said once: nothing happens because the counter is
exhausted or the report cannot be indexed, a refusal moves the counter, an aggressor changes one
ladder, or a withdrawal does. Results about all commands are proved by these five cases.
-/

namespace AtlasLob

open PriceLevel

/-- What a market becomes and replies. -/
inductive Outcome (market : Market) (command : Command) : Market → Market.Reply → Prop
  /-- No sequence is left. -/
  | spent (spent : market.sequencer.exhausted = true) :
      Outcome market command market (.error .sequenceExhausted)
  /-- The command is refused. -/
  | refused {decision : ValidationDecision} (unspent : market.sequencer.exhausted = false)
      (judged : market.judge command = .refuse decision) :
      Outcome market command market.advance
        (.ok (Market.refusal market.sequencer.nextSequence command decision))
  /-- The report of an aggressor cannot be indexed. -/
  | overlong {desk : Desk} {order : NewOrder} {replaced : Option OrderNodeSpec}
      {opening : List EventPayload} (unspent : market.sequencer.exhausted = false)
      (found : market.desk command.instrumentId = some desk)
      (submits : Submits command order replaced opening)
      (aggresses : Aggresses command.instrumentId desk.ladder order replaced
        market.sequencer.nextSequence)
      (judged : market.judge command = .accept
        (desk.ladder.after order replaced market.sequencer.nextSequence)
        (desk.ladder.report order replaced market.sequencer.nextSequence opening))
      (long : 2 ^ 32 <
        (desk.ladder.report order replaced market.sequencer.nextSequence opening).length) :
      Outcome market command market (.error .internalFailure)
  /-- An aggressor changes the ladder of its desk. -/
  | aggressor {desk : Desk} {order : NewOrder} {replaced : Option OrderNodeSpec}
      {opening : List EventPayload} (unspent : market.sequencer.exhausted = false)
      (found : market.desk command.instrumentId = some desk)
      (submits : Submits command order replaced opening)
      (aggresses : Aggresses command.instrumentId desk.ladder order replaced
        market.sequencer.nextSequence)
      (fresh : order.orderId ∉ ids market.orders)
      (fits : desk.ladder.overflows order replaced = false)
      (judged : market.judge command = .accept
        (desk.ladder.after order replaced market.sequencer.nextSequence)
        (desk.ladder.report order replaced market.sequencer.nextSequence opening))
      (short : (desk.ladder.report order replaced market.sequencer.nextSequence opening).length ≤
        2 ^ 32) :
      Outcome market command (market.setLadder command.instrumentId desk
          (desk.ladder.after order replaced market.sequencer.nextSequence)).advance
        (.ok (numberEvents market.sequencer.nextSequence command.instrumentId 0
          (desk.ladder.report order replaced market.sequencer.nextSequence opening)))
  /-- A withdrawal changes the ladder of its desk. -/
  | withdrawal {desk : Desk} {order : CancelOrder} {old : OrderNodeSpec}
      (withdraws : command = .cancel order) (unspent : market.sequencer.exhausted = false)
      (found : market.desk command.instrumentId = some desk) (member : old ∈ desk.ladder.orders)
      (named : old.orderId = order.orderId) (owned : old.clientId = order.clientId)
      (judged : market.judge command = .accept (desk.ladder.without old)
        (desk.ladder.withdrawalReport old)) :
      Outcome market command
        (market.setLadder command.instrumentId desk (desk.ladder.without old)).advance
        (.ok (numberEvents market.sequencer.nextSequence command.instrumentId 0
          (desk.ladder.withdrawalReport old)))

/-- A withdrawal reports few events. -/
theorem withdrawalReport_length (ladder : Ladder) (old : OrderNodeSpec) :
    (ladder.withdrawalReport old).length ≤ 4 := by
  rw [Ladder.withdrawalReport, Ladder.changeEvents]
  split_ifs <;> simp

/-- A valid market steps in one of these ways. -/
theorem Market.Valid.outcome {market : Market} (valid : market.Valid) (command : Command) :
    Outcome market command (market.step command).1 (market.step command).2 := by
  rw [Market.step]
  cases unspent : market.sequencer.exhausted with
  | true => exact .spent unspent
  | false =>
    simp only [Bool.false_eq_true, ↓reduceIte]
    rcases valid.judge_cases unspent command with
      ⟨decision, refused⟩ | ⟨desk, found, admitted, judged⟩
    · simp only [refused]
      exact .refused unspent refused
    · cases verdict : market.judgeAdmitted command desk with
      | refuse decision =>
        simp only [judged, verdict]
        exact .refused unspent (judged.trans verdict)
      | accept ladder report =>
        have accepts := judged.trans verdict
        simp only [accepts]
        cases admitted with
        | @aggressor _ order replaced opening submits aggresses fresh limited aligned same =>
          rw [same] at verdict
          obtain ⟨-, fits, rfl, rfl⟩ := judgeAggressor_accept verdict
          split_ifs with long
          · exact .overlong unspent found submits aggresses accepts long
          · rw [withLadder_of_desk found]
            exact .aggressor unspent found submits aggresses fresh fits accepts
              (Nat.le_of_not_lt long)
        | @withdrawal order old member named owned same =>
          rw [same, Verdict.accept.injEq] at verdict
          obtain ⟨rfl, rfl⟩ := verdict
          have short := withdrawalReport_length desk.ladder old
          rw [if_neg (by omega), withLadder_of_desk found]
          exact .withdrawal rfl unspent found member named owned accepts

end AtlasLob
