import AtlasLob.Spec.Equivariance
import AtlasLob.Verif.Identities

/-!
# Runs inside longer runs

Part of a long run can be read as a run of its own: the commands that are kept, each executed at
the sequence it had. Such a placed run replies like an ordinary run of the same commands, up to a
strictly increasing renaming of the sequences.
-/

namespace AtlasLob

open PriceLevel

namespace Relabeling

/-- Give commands other sequences. -/
def renumber (sequence : Sequence → Sequence) : Relabeling := ⟨id, id, sequence, id, false⟩

/-- Renumbering changes nothing that matching reads. -/
theorem faithful_renumber (sequence : Sequence → Sequence) :
    (renumber sequence).Faithful (fun _ => True) (fun _ => True) where
  orderId := Function.injective_id
  orderId_zero := rfl
  clientId := Function.injective_id
  clientId_zero := rfl
  positive _ _ := Iff.rfl
  ahead _ _ _ _ _ _ := rfl
  aligned _ _ _ _ := rfl

/-- A command has no sequence yet. -/
@[simp] theorem renumber_command (sequence : Sequence → Sequence) (command : Command) :
    (renumber sequence).command command = command := by
  cases command with
  | newOrder order =>
    show Command.newOrder { order with limitPrice := order.limitPrice.map id } = _
    rw [Option.map_id, id_eq]
  | cancel order => rfl
  | replace order => rfl

/-- A payload names no sequence. -/
@[simp] theorem renumber_payload (sequence : Sequence → Sequence) (payload : EventPayload) :
    (renumber sequence).payload payload = payload := by
  have levels : ∀ level : Option TopOfBookLevel,
      level.map (renumber sequence).topLevel = level := by
    intro level
    cases level <;> rfl
  cases payload with
  | bookChanged bestBid bestAsk =>
    show EventPayload.bookChanged (bestBid.map (renumber sequence).topLevel)
      (bestAsk.map (renumber sequence).topLevel) = _
    rw [levels, levels]
  | rejected commandType reason orderId =>
    show EventPayload.rejected commandType reason (orderId.map id) = _
    rw [Option.map_id, id_eq]
  | _ => rfl

/-- Keeping every sequence changes nothing. -/
theorem images_renumber_id (market : Market) : (renumber id).Images market market := by
  have order : (renumber id).order = id := rfl
  have levels : ∀ levels : Levels, (renumber id).levels levels = levels := by
    intro levels
    refine (List.map_congr_left fun entry member => ?_).trans (List.map_id _)
    rw [order, List.map_id]
    rfl
  refine ⟨rfl, ?_⟩
  refine ((List.map_congr_left fun entry member => ?_).trans (List.map_id _)).symm
  have ladder : (renumber id).ladder entry.2.ladder = entry.2.ladder := by
    show Ladder.mk ((renumber id).levels _) ((renumber id).levels _) = _
    rw [levels, levels]
  simp only [Relabeling.desk, ladder]
  rfl

/-- Renumberings that agree on the priorities of a market agree on its books. -/
theorem renumber_books {first second : Sequence → Sequence} {market : Market}
    (agree : ∀ order ∈ market.orders,
      first order.prioritySequence = second order.prioritySequence) :
    (renumber first).books market.books = (renumber second).books market.books := by
  have levels : ∀ levels : Levels,
      (∀ order ∈ levels.orders, first order.prioritySequence = second order.prioritySequence) →
        (renumber first).levels levels = (renumber second).levels levels := by
    intro levels same
    refine List.map_congr_left fun entry member => ?_
    have queue : entry.2.map (renumber first).order = entry.2.map (renumber second).order := by
      refine List.map_congr_left fun order inside => ?_
      have one := same order (Levels.mem_orders.mpr ⟨entry.1, entry.2, member, inside⟩)
      simp only [Relabeling.order, renumber, one]
      rfl
    rw [queue]
    rfl
  refine List.map_congr_left fun entry member => ?_
  have inside : ∀ order ∈ entry.2.ladder.orders,
      first order.prioritySequence = second order.prioritySequence := fun order present =>
    agree order (Market.mem_orders.mpr ⟨entry.1, entry.2, member, present⟩)
  have bids := levels entry.2.ladder.bids fun order present =>
    inside order (List.mem_append_left _ present)
  have asks := levels entry.2.ladder.asks fun order present =>
    inside order (List.mem_append_right _ present)
  have ladder : (renumber first).ladder entry.2.ladder =
      (renumber second).ladder entry.2.ladder := by
    show Ladder.mk ((renumber first).levels _) ((renumber first).levels _) =
      Ladder.mk ((renumber second).levels _) ((renumber second).levels _)
    rw [bids, asks]
  simp only [Relabeling.desk, ladder]

end Relabeling

namespace Market

/-- A market whose counter stands at a sequence. -/
def placed (market : Market) (sequence : Sequence) : Market :=
  { market with sequencer := ⟨sequence, false⟩ }

/-- Execute commands at given sequences. -/
def place (market : Market) : List (Sequence × Command) → Market × List Reply
  | [] => (market, [])
  | (sequence, command) :: rest =>
    let next := (market.placed sequence).step command
    let later := place next.1 rest
    (later.1, next.2 :: later.2)

/-- Sequences that a market can be given one after another. -/
def Timed (market : Market) : List (Sequence × Command) → Prop
  | [] => True
  | (sequence, command) :: rest =>
    market.sequencer.nextSequence.toNat ≤ sequence.toNat ∧
      ((market.placed sequence).step command).1.sequencer.exhausted = false ∧
        Timed ((market.placed sequence).step command).1 rest

/-- The events of a step carry its sequence. -/
theorem step_sequences {market : Market} {command : Command} {events : List Event}
    (replied : (market.step command).2 = .ok events) :
    ∀ event ∈ events, event.header.commandSequence = market.sequencer.nextSequence := by
  intro event member
  rw [step] at replied
  split_ifs at replied
  cases judged : market.judge command with
  | refuse decision =>
    simp only [judged, Except.ok.injEq] at replied
    rw [← replied] at member
    exact (mem_numberEvents member).1
  | accept ladder report =>
    simp only [judged] at replied
    split_ifs at replied
    rw [Except.ok.injEq] at replied
    rw [← replied] at member
    exact (mem_numberEvents member).1

/-- What a step makes of the counter of a market that it does not exhaust. -/
theorem step_next {market : Market} {command : Command}
    (unspent : market.sequencer.exhausted = false)
    (later : (market.step command).1.sequencer.exhausted = false) :
    (market.step command).1.sequencer.nextSequence.toNat =
      market.sequencer.nextSequence.toNat + if (market.step command).2.isOk then 1 else 0 := by
  rw [step_sequencer] at later ⊢
  split_ifs at later ⊢ with replied
  · rw [CommandSequencer.issue, unspent] at later ⊢
    simp only [Bool.false_eq_true, ↓reduceIte] at later ⊢
    by_cases last : market.sequencer.nextSequence = Word.max64
    · simp [last] at later
    · have bound := Word.le_max64 market.sequencer.nextSequence
      have apart : market.sequencer.nextSequence.toNat ≠ 2 ^ 64 - 1 := fun same =>
        last (Word.eq_of_toNat same)
      rw [if_neg last, Word.toNat_add_of_fits (by simpa using by omega)]
      rfl
  · rfl

/-- A numbering that increases strictly from one sequence up to another and starts no lower than
a bound. -/
structure Increasing (sequence : Sequence → Sequence) (low high bound : Nat) : Prop where
  above : ∀ issued : Sequence, low ≤ issued.toNat → issued.toNat < high →
    bound ≤ (sequence issued).toNat
  mono : ∀ first second : Sequence, low ≤ first.toNat → first < second → second.toNat < high →
    sequence first < sequence second

/-- A numbering whose first value is known goes on from the second. -/
theorem Increasing.cons {sequence : Sequence → Sequence} {first : Sequence} {high bound : Nat}
    {image : Sequence} (own : sequence first = image) (reached : bound ≤ image.toNat)
    (later : Increasing sequence (first.toNat + 1) high (image.toNat + 1)) :
    Increasing sequence first.toNat high bound := by
  constructor
  · intro issued least below
    by_cases same : issued = first
    · rw [same, own]
      exact reached
    · have next := later.above issued (by
        have apart : issued.toNat ≠ first.toNat := fun equal => same (Word.eq_of_toNat equal)
        omega) below
      omega
  · intro left right least ordered below
    rw [UInt64.lt_iff_toNat_lt] at ordered
    by_cases same : left = first
    · rw [same] at ordered
      have next := later.above right (by omega) below
      rw [same, own, UInt64.lt_iff_toNat_lt]
      omega
    · refine later.mono left right ?_ (UInt64.lt_iff_toNat_lt.mpr ordered) below
      have apart : left.toNat ≠ first.toNat := fun equal => same (Word.eq_of_toNat equal)
      omega

/-- A placed command after an ordinary one: where the counters are left. -/
theorem placed_next {market view : Market} {sequence : Sequence} {command : Command}
    (unspent : market.sequencer.exhausted = false)
    (behind : market.sequencer.nextSequence.toNat ≤ sequence.toNat)
    (replied : ((view.placed sequence).step command).2.isOk = (market.step command).2.isOk)
    (later : ((view.placed sequence).step command).1.sequencer.exhausted = false) :
    (market.step command).1.sequencer.exhausted = false := by
  rw [step_sequencer, replied] at later
  rw [step_sequencer]
  split_ifs at later ⊢ with done
  · have placed : (view.placed sequence).sequencer = ⟨sequence, false⟩ := rfl
    have last : sequence ≠ Word.max64 := by
      intro last
      rw [placed, last] at later
      simp [CommandSequencer.issue] at later
    have early : market.sequencer.nextSequence ≠ Word.max64 := by
      intro early
      have bound := Word.le_max64 sequence
      rw [early] at behind
      refine last (Word.eq_of_toNat ?_)
      have top : Word.max64.toNat = 2 ^ 64 - 1 := rfl
      omega
    simp [CommandSequencer.issue, unspent, early]
  · exact unspent

/-- A placed run of commands is an ordinary run of them, renumbered. -/
theorem place_renumbers {market view : Market} {numbering : Sequence → Sequence}
    (images : (Relabeling.renumber numbering).Images market view) (valid : market.Valid)
    (unspent : market.sequencer.exhausted = false)
    (behind : market.sequencer.nextSequence.toNat ≤ view.sequencer.nextSequence.toNat)
    {schedule : List (Sequence × Command)} (timed : view.Timed schedule) :
    ∃ renumbering : Sequence → Sequence,
      (∀ issued : Sequence, issued.toNat < market.sequencer.nextSequence.toNat →
        renumbering issued = numbering issued) ∧
      Increasing renumbering market.sequencer.nextSequence.toNat
        (market.run (schedule.map Prod.snd)).1.sequencer.nextSequence.toNat
        view.sequencer.nextSequence.toNat ∧
      (Relabeling.renumber renumbering).Images (market.run (schedule.map Prod.snd)).1
        (view.place schedule).1 ∧
      (view.place schedule).2 = (market.run (schedule.map Prod.snd)).2.map
        (Relabeling.renumber renumbering).reply ∧
      (market.run (schedule.map Prod.snd)).1.sequencer.exhausted = false := by
  induction schedule generalizing market view numbering with
  | nil =>
    refine ⟨numbering, fun _ _ => rfl, ⟨fun issued least below => ?_,
      fun first second least ordered below => ?_⟩, images, rfl, unspent⟩
    · have none : issued.toNat < market.sequencer.nextSequence.toNat := below
      omega
    · have none : second.toNat < market.sequencer.nextSequence.toNat := below
      rw [UInt64.lt_iff_toNat_lt] at ordered
      omega
  | cons entry rest ih =>
    obtain ⟨sequence, command⟩ := entry
    obtain ⟨reached, lasting, later⟩ := timed
    -- The next sequence of the ordinary run is sent to the given one; no priority is affected.
    let numbered := Function.update numbering market.sequencer.nextSequence sequence
    have own : numbered market.sequencer.nextSequence = sequence := Function.update_self ..
    have others : ∀ issued : Sequence, issued ≠ market.sequencer.nextSequence →
        numbered issued = numbering issued := fun issued apart =>
      Function.update_of_ne apart _ _
    have placed : (Relabeling.renumber numbered).Images market (view.placed sequence) := by
      refine ⟨images.config, images.books.trans (Relabeling.renumber_books ?_)⟩
      intro order member
      have newer := valid.newer unspent member
      refine (others _ fun same => ?_).symm
      rw [same, UInt64.lt_iff_toNat_lt] at newer
      omega
    have priced : command.Priced fun _ => True := by
      cases command <;> simp [Command.Priced]
    obtain ⟨stepped, replied⟩ := placed.step (Relabeling.faithful_renumber numbered) valid
      ⟨fun _ _ _ _ _ _ _ => trivial, fun _ _ _ => trivial⟩ unspent.symm own priced
    rw [Relabeling.renumber_command] at stepped replied
    have answered : ((view.placed sequence).step command).2.isOk =
        (market.step command).2.isOk := by
      rw [replied, Relabeling.reply]
      cases (market.step command).2 <;> rfl
    have unspentNext := placed_next unspent (Nat.le_trans behind reached) answered lasting
    have next := step_next unspent unspentNext
    have viewNext := @step_next (view.placed sequence) command rfl lasting
    have start : (view.placed sequence).sequencer.nextSequence = sequence := rfl
    rw [answered, start] at viewNext
    obtain ⟨renumbering, agree, increasing, final, replies, open'⟩ :=
      ih stepped (valid.step command) unspentNext (by omega) later
    refine ⟨renumbering, fun issued below => ?_, ?_, final, ?_, open'⟩
    · rw [agree issued (by omega)]
      exact others issued fun same => by rw [same] at below; omega
    · cases done : (market.step command).2.isOk with
      | true =>
        simp only [done, ↓reduceIte] at next viewNext
        have image : renumbering market.sequencer.nextSequence = sequence := by
          rw [agree _ (by omega), own]
        rw [next, viewNext] at increasing
        exact increasing.cons image reached
      | false =>
        simp only [done, Bool.false_eq_true, ↓reduceIte, Nat.add_zero] at next viewNext
        rw [next, viewNext] at increasing
        exact ⟨fun issued least below => Nat.le_trans reached (increasing.above issued least below),
          increasing.mono⟩
    · simp only [place, List.map_cons, run, replies, replied]
      congr 1
      cases answer : (market.step command).2 with
      | error error => rfl
      | ok events =>
        rw [answer] at next
        have headers := step_sequences answer
        refine congrArg Except.ok (List.map_congr_left fun event member => ?_)
        have image : renumbering event.header.commandSequence =
            numbered event.header.commandSequence := by
          refine agree _ ?_
          rw [headers event member, next]
          exact Nat.lt_succ_self _
        simp only [Relabeling.event, Relabeling.renumber_payload]
        show Event.mk ⟨numbered _, _, _⟩ _ = Event.mk ⟨renumbering _, _, _⟩ _
        rw [image]

/-- A step keeps the limits of a market. -/
theorem step_config (market : Market) (command : Command) :
    (market.step command).1.config = market.config := by
  rw [step]
  split_ifs
  · rfl
  · cases market.judge command with
    | refuse decision => rfl
    | accept ladder report =>
      simp only
      split_ifs
      · rfl
      · rw [withLadder]
        cases market.desk command.instrumentId <;> rfl

/-- An exhausted counter stays exhausted. -/
theorem run_spent {market : Market} (spent : market.sequencer.exhausted = true)
    (commands : List Command) : (market.run commands).1.sequencer.exhausted = true := by
  induction commands generalizing market with
  | nil => exact spent
  | cons command rest ih =>
    have same : (market.step command).1 = market := by
      rw [step, if_pos spent]
    refine @ih (market.step command).1 ?_
    rw [same]
    exact spent

/-- A counter that a run does not exhaust is never exhausted on the way. -/
theorem run_unspent {market : Market} {commands : List Command}
    (unspent : (market.run commands).1.sequencer.exhausted = false) :
    market.sequencer.exhausted = false := by
  cases spent : market.sequencer.exhausted with
  | false => rfl
  | true => simp [run_spent spent commands] at unspent

/-- The kept commands of a run, each with the sequence it was executed at. -/
def schedule (keep : Market → Command → Bool) (market : Market) :
    List Command → List (Sequence × Command)
  | [] => []
  | command :: rest =>
    (if keep market command then [(market.sequencer.nextSequence, command)] else []) ++
      schedule keep (market.step command).1 rest

/-- The replies to the kept commands of a run. -/
def keptReplies (keep : Market → Command → Bool) (market : Market) : List Command → List Reply
  | [] => []
  | command :: rest =>
    (if keep market command then [(market.step command).2] else []) ++
      keptReplies keep (market.step command).1 rest

/-- A part of a market that follows the kept commands and is left alone by the others. -/
structure Follows (keep : Market → Command → Bool) (look : Market → Market) (market : Market)
    (command : Command) : Prop where
  kept : keep market command = true →
    (look market).step command = (look (market.step command).1, (market.step command).2)
  passed : keep market command = false →
    (look (market.step command).1).books = (look market).books

/-- A part of a run is the placed run of its kept commands. -/
theorem place_schedule {keep : Market → Command → Bool} {look : Market → Market}
    (counter : ∀ market, (look market).sequencer = market.sequencer)
    (limits : ∀ market, (look market).config = market.config)
    {invariant : Market → Prop} {commands : List Command}
    (follows : ∀ market, invariant market → ∀ command ∈ commands,
      market.Follows keep look command)
    (keeps : ∀ market, invariant market → ∀ command ∈ commands,
      invariant (market.step command).1)
    {market view : Market} (holds : invariant market) (books : view.books = (look market).books)
    (config : view.config = market.config)
    (behind : view.sequencer.nextSequence.toNat ≤ market.sequencer.nextSequence.toNat)
    (unspent : (market.run commands).1.sequencer.exhausted = false) :
    (view.place (market.schedule keep commands)).1.books = (look (market.run commands).1).books ∧
      (view.place (market.schedule keep commands)).1.config = (market.run commands).1.config ∧
      (view.place (market.schedule keep commands)).2 = market.keptReplies keep commands ∧
      view.Timed (market.schedule keep commands) := by
  induction commands generalizing market view with
  | nil => exact ⟨books, config, rfl, trivial⟩
  | cons command rest ih =>
    have open' := run_unspent unspent
    have nextOpen : (market.step command).1.sequencer.exhausted = false := run_unspent unspent
    have next := step_next open' nextOpen
    have here := follows market holds command (by simp)
    have later := @ih
      (fun market holds other member => follows market holds other (by simp [member]))
      (fun market holds other member => keeps market holds other (by simp [member]))
      (market.step command).1
    have held := keeps market holds command (by simp)
    rw [schedule, keptReplies]
    cases kept : keep market command with
    | true =>
      have placed : view.placed market.sequencer.nextSequence = look market := by
        have same : (look market).sequencer = ⟨market.sequencer.nextSequence, false⟩ := by
          rw [counter, ← open']
        cases look' : look market with
        | mk lookConfig lookBooks lookCounter =>
          have lookLimits := limits market
          rw [look'] at same books lookLimits
          simp only at same books lookLimits
          rw [placed, books, config, ← lookLimits, same]
      have stepped := here.kept kept
      obtain ⟨finalBooks, finalConfig, replies, timed⟩ :=
        @later (look (market.step command).1) held rfl (limits _) (by rw [counter]) unspent
      simp only [↓reduceIte, List.singleton_append, place, Timed, placed, stepped]
      refine ⟨finalBooks, finalConfig, by rw [replies], behind, ?_, timed⟩
      rw [counter]
      exact nextOpen
    | false =>
      simp only [Bool.false_eq_true, ↓reduceIte, List.nil_append]
      exact @later view held (books.trans (here.passed kept).symm)
        (config.trans (step_config _ _).symm) (by omega) unspent

/-- A part of a run is an ordinary run of its kept commands, renumbered: the replies to them and
what is looked at in the end differ from that run in a strictly increasing numbering alone. -/
theorem run_part {keep : Market → Command → Bool} {look : Market → Market}
    (counter : ∀ market, (look market).sequencer = market.sequencer)
    (limits : ∀ market, (look market).config = market.config)
    {invariant : Market → Prop} {commands : List Command}
    (follows : ∀ market, invariant market → ∀ command ∈ commands,
      market.Follows keep look command)
    (keeps : ∀ market, invariant market → ∀ command ∈ commands,
      invariant (market.step command).1)
    {market : Market} (holds : invariant market) (valid : (look market).Valid)
    (unspent : (market.run commands).1.sequencer.exhausted = false) :
    ∃ renumbering : Sequence → Sequence,
      Increasing renumbering market.sequencer.nextSequence.toNat
        ((look market).run ((market.schedule keep commands).map
          Prod.snd)).1.sequencer.nextSequence.toNat market.sequencer.nextSequence.toNat ∧
      (Relabeling.renumber renumbering).Images
        ((look market).run ((market.schedule keep commands).map Prod.snd)).1
        (look (market.run commands).1) ∧
      market.keptReplies keep commands =
        ((look market).run ((market.schedule keep commands).map Prod.snd)).2.map
          (Relabeling.renumber renumbering).reply := by
  obtain ⟨books, config, replies, timed⟩ := place_schedule counter limits follows keeps holds rfl
    (limits market) (by rw [counter]) unspent
  have itself := Relabeling.images_renumber_id (look market)
  have open' : (look market).sequencer.exhausted = false := by
    rw [counter]
    exact run_unspent unspent
  obtain ⟨renumbering, -, increasing, images, replied, -⟩ :=
    place_renumbers itself valid open' (Nat.le_refl _) timed
  rw [counter] at increasing
  refine ⟨renumbering, increasing, ⟨?_, ?_⟩, ?_⟩
  · rw [limits, ← config]
    exact images.config
  · rw [← books]
    exact images.books
  · rw [← replies, replied]

end Market

end AtlasLob
