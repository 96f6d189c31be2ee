import OrderWatch.Json.Writer
import OrderWatch.Proofs.Desk.Closing
import OrderWatch.Proofs.Order.Breakage
import OrderWatch.Replay

/-
  How far a replay comes.

  Most lines cannot stop a replay: those that hold no command
  are passed over, and a command to start or to stop an order,
  a status, or a change of status always comes to its end.
  Only a fill may be broken off, by a sum that does not fit,
  and then the lines after it are not read.  The difference
  that a fill event reports always fits, since no total is
  below zero.

  Main declarations:
    * `Order.Settled.broken_iff`
    * `Replay.handleAll`, `Replay.Finishes`
    * `Replay.BreaksAt`, `Replay.Unbroken`
    * `Replay.InPlace.handle_broken_iff`
    * `Replay.finishes_iff`
-/

namespace OrderWatch

------------------------------------------------------------
-- Responses
------------------------------------------------------------

namespace Order

variable {o : Order} {u : Update} {time : Time.Moment}
variable {policy : TerminalPolicy} {why : Overflow}

/- What is answered is broken if the update is. -/
theorem broken_of_error
    (hError : (o.apply u).2 = .error why)
    (time : Time.Moment)
    (policy : TerminalPolicy) :
    (o.respond u time policy).2.verdict = .broken why := by
  unfold respond settle
  rw [hError]
  rfl

/-
  The events of a settled record can always be told, so what
  is answered is only broken if the update is.
-/
theorem Settled.error_of_broken
    (hSettled : o.Settled)
    (hBroken :
      (o.respond u time policy).2.verdict = .broken why) :
    (o.apply u).2 = .error why := by
  have hUnsigned := apply_unsigned hSettled.unsigned u
  rcases eventsSince_split hSettled.unsigned hUnsigned u.channel
      time with ⟨news, hEvents, _⟩
  cases hOutcome : (o.apply u).2 with
  | error why' =>
      rw [broken_of_error hOutcome] at hBroken
      rw [Verdict.broken.inj hBroken]
  | ok outcome =>
      unfold Order.respond settle at hBroken
      rw [hOutcome] at hBroken
      cases outcome with
      | applied =>
          simp only [hEvents policy] at hBroken
          contradiction
      | _ => contradiction

/- Only a fill is broken off, by one of its sums. -/
theorem Settled.broken_iff
    (hSettled : o.Settled) :
    (o.respond u time policy).2.verdict = .broken why ↔
      why = .addition ∧ ∃ f, u = .fill f ∧ o.Breaks f := by
  constructor
  · intro hBroken
    have hError := hSettled.error_of_broken hBroken
    cases u with
    | status u => contradiction
    | fill f =>
        have hBreaks := breaks_of_error hError
        have hFill : (o.applyFill f).2 = .error why := hError
        rw [applyFill_of_breaks hBreaks] at hFill
        exact
          ⟨(Except.error.inj hFill).symm, f, rfl, hBreaks⟩
  · rintro ⟨rfl, f, rfl, hBreaks⟩
    apply broken_of_error
    exact congrArg Prod.snd (applyFill_of_breaks hBreaks)

end Order

------------------------------------------------------------
-- Lines
------------------------------------------------------------

/- What did not fit, if an answer was broken off. -/
def Verdict.overflow? : Verdict → Option Overflow
  | .broken why => some why
  | .applied _ | .unchanged | .ignored _ => none

theorem Verdict.overflow?_eq_some_iff
    (v : Verdict)
    (why : Overflow) :
    v.overflow? = some why ↔ v = .broken why := by
  cases v <;> simp [overflow?]

namespace Replay

/- Handle lines, whatever becomes of each of them. -/
def handleAll (r : Replay) (ls : List Line) : Replay :=
  ls.foldl (fun r l => (r.handle l).1) r

/- All lines are handled, and the replay ends as it should. -/
def Finishes (r : Replay) (ls : List Line) : Prop :=
  r.run ls = (r.handleAll ls, none)

/-
  A line brings a fill that is accepted by the record which
  is found for it, but not all sums of which fit.
-/
def BreaksAt (r : Replay) (l : Line) : Prop :=
  ∃ f o,
    Command.read? l.fresh l.text = some (.update (.fill f)) ∧
    ((r.advance l.pause).desk.tracker.fetch f.orderId).2 =
      some o ∧
    o.Breaks f

/- The printer leaves the tracker alone. -/
theorem still_hear :
    hear.Still where
  quiet := ⟨fun _ _ _ => rfl, fun _ _ _ => rfl⟩
  clock_eq := fun _ _ _ => rfl

/- Every record is settled and lies under its name. -/
def InPlace (r : Replay) : Prop :=
  r.desk.tracker.book.All Order.InPlace

variable {r : Replay}

theorem inPlace_opening
    (s : TrackerSettings)
    (clock : Time.Clock) :
    (opening s clock).InPlace :=
  Book.All.empty Order.InPlace s.capacity s.lifetime

/- To let time pass is to advance, and to purge if it is due. -/
theorem InPlace.advance
    (h : r.InPlace)
    (nanos : Nat) :
    (r.advance nanos).InPlace := by
  have hLater :=
    Desk.inPlace_perform still_hear.quiet h
      (a := .advance nanos) (by simp)
  unfold Replay.advance
  simp only
  split
  · exact
      Desk.inPlace_perform still_hear.quiet hLater
        (a := .purge) (by simp)
  · exact hLater

/- An update is processed; what did not fit is passed on. -/
theorem perform_update
    (r : Replay)
    (u : Update) :
    r.perform (.update u) =
      ({ r with desk := (r.desk.process hear u).1 },
        (r.desk.process hear u).2.overflow?) := by
  unfold Replay.perform
  simp only
  rcases r.desk.process hear u with ⟨desk, verdict⟩
  cases verdict <;> rfl

theorem InPlace.perform
    (h : r.InPlace)
    (c : Command) :
    (r.perform c).1.InPlace := by
  cases c with
  | track q =>
      exact
        Desk.inPlace_perform still_hear.quiet h
          (a := .start (.ofRequest q))
          (fun o hStart => ⟨q, (Action.start.inj hStart).symm⟩)
  | stop id =>
      exact
        Desk.inPlace_perform still_hear.quiet h
          (a := .stop id) (by simp)
  | status => exact h
  | update u =>
      rw [perform_update]
      exact
        Desk.inPlace_perform still_hear.quiet h
          (a := .update u) (by simp)

theorem InPlace.handle
    (h : r.InPlace)
    (l : Line) :
    (r.handle l).1.InPlace := by
  have hLater := h.advance l.pause
  unfold Replay.handle
  simp only
  split
  · exact hLater.perform _
  · exact hLater

/- What an update is broken off by, if it is. -/
theorem InPlace.overflow_iff
    (h : r.InPlace)
    (u : Update)
    (why : Overflow) :
    (r.desk.process hear u).2.overflow? = some why ↔
      why = .addition ∧
        ∃ f o, u = .fill f ∧
          (r.desk.tracker.fetch f.orderId).2 = some o ∧
          o.Breaks f := by
  rw [Verdict.overflow?_eq_some_iff, Desk.verdict_process]
  cases hFound :
      (r.desk.tracker.book.find r.desk.tracker.now
        u.orderId).2 with
  | none =>
      rw [(Tracker.receive_unknown hFound).2]
      constructor
      · intro hBroken
        contradiction
      · rintro ⟨_, f, o, rfl, hSome, _⟩
        have hNone : (r.desk.tracker.fetch f.orderId).2 = none :=
          hFound
        rw [hNone] at hSome
        contradiction
  | some o =>
      rw [(Tracker.receive_known hFound).2,
        (h.of_find hFound).settled.broken_iff]
      constructor
      · rintro ⟨hWhy, f, rfl, hBreaks⟩
        exact ⟨hWhy, f, o, rfl, hFound, hBreaks⟩
      · rintro ⟨hWhy, f, p, rfl, hSome, hBreaks⟩
        have hSame : some o = some p := hFound.symm.trans hSome
        rw [Option.some.inj hSame]
        exact ⟨hWhy, f, rfl, hBreaks⟩

/- A line stops the replay if its fill is broken off. -/
theorem InPlace.handle_broken_iff
    (h : r.InPlace)
    (l : Line)
    (why : Overflow) :
    (r.handle l).2 = some why ↔
      why = .addition ∧ r.BreaksAt l := by
  have hLater := h.advance l.pause
  unfold Replay.handle BreaksAt
  simp only
  cases hRead : Command.read? l.fresh l.text with
  | none => simp
  | some c =>
      cases c with
      | update u =>
          simp only [perform_update, hLater.overflow_iff u why,
            Option.some.injEq, Command.update.injEq]
      | track q => simp [Replay.perform]
      | stop id => simp [Replay.perform]
      | status => simp [Replay.perform]

------------------------------------------------------------
-- Runs
------------------------------------------------------------

/- No line of some is broken off where it is handled. -/
def Unbroken : Replay → List Line → Prop
  | _, [] => True
  | r, l :: ls => ¬ r.BreaksAt l ∧ Unbroken (r.handle l).1 ls

theorem run_cons
    (r : Replay)
    (l : Line)
    (ls : List Line) :
    r.run (l :: ls) =
      match (r.handle l).2 with
      | none => (r.handle l).1.run ls
      | some why => ((r.handle l).1, some why) := by
  rw [run]
  rcases r.handle l with ⟨next, broken?⟩
  cases broken? <;> rfl

theorem not_unbroken_append
    {before after : List Line}
    {l : Line}
    (hBreaks : (r.handleAll before).BreaksAt l) :
    ¬ r.Unbroken (before ++ l :: after) := by
  induction before generalizing r with
  | nil => exact fun hWhole => hWhole.1 hBreaks
  | cons k before ih => exact fun hWhole => ih hBreaks hWhole.2

/-
  Either all lines are handled, or they are up to the first
  one that is broken off, and no further.
-/
theorem InPlace.run_cases
    (h : r.InPlace)
    (ls : List Line) :
    (r.Unbroken ls ∧ r.Finishes ls) ∨
      ∃ before l after,
        ls = before ++ l :: after ∧
        r.Unbroken before ∧
        (r.handleAll before).BreaksAt l ∧
        r.run ls =
          (r.handleAll (before ++ [l]), some .addition) := by
  induction ls generalizing r with
  | nil => exact .inl ⟨trivial, rfl⟩
  | cons l ls ih =>
      have hRun := r.run_cons l ls
      by_cases hBreaks : r.BreaksAt l
      · have hBroken : (r.handle l).2 = some .addition :=
          (h.handle_broken_iff l .addition).mpr ⟨rfl, hBreaks⟩
        rw [hBroken] at hRun
        exact .inr ⟨[], l, ls, rfl, trivial, hBreaks, hRun⟩
      · have hWhole : (r.handle l).2 = none := by
          rw [Option.eq_none_iff_forall_ne_some]
          intro why hBroken
          exact
            hBreaks ((h.handle_broken_iff l why).mp hBroken).2
        rw [hWhole] at hRun
        rcases ih (h.handle l) with
          ⟨hUnbroken, hFinishes⟩ |
          ⟨before, k, after, rfl, hUnbroken, hLast, hStops⟩
        · exact .inl ⟨⟨hBreaks, hUnbroken⟩, hRun.trans hFinishes⟩
        · exact
            .inr
              ⟨l :: before, k, after, rfl,
                ⟨hBreaks, hUnbroken⟩, hLast, hRun.trans hStops⟩

/-
  A replay handles all of its lines and ends as it should if
  and only if none of them brings a fill one of whose sums
  does not fit.  If there is such a line, then the first one
  ends the replay: the lines before it have been handled, it
  has been handled up to the sum, and no later one is.
-/
theorem finishes_iff
    (s : TrackerSettings)
    (clock : Time.Clock)
    (ls : List Line) :
    let r := opening s clock
    (r.Finishes ls ↔ r.Unbroken ls) ∧
      (¬ r.Unbroken ls →
        ∃ before l after,
          ls = before ++ l :: after ∧
          r.Unbroken before ∧
          (r.handleAll before).BreaksAt l ∧
          r.run ls =
            (r.handleAll (before ++ [l]), some .addition)) := by
  intro r
  have hPlace : r.InPlace := inPlace_opening s clock
  rcases hPlace.run_cases ls with
    ⟨hUnbroken, hFinishes⟩ | hStops
  · exact
      ⟨iff_of_true hFinishes hUnbroken,
        fun hBroken => absurd hUnbroken hBroken⟩
  · refine ⟨?_, fun _ => hStops⟩
    rcases hStops with
      ⟨before, l, after, hSplit, _, hBreaks, hRun⟩
    apply iff_of_false
    · intro hFinishes
      have hEnd := congrArg Prod.snd (hFinishes.symm.trans hRun)
      contradiction
    · rw [hSplit]
      exact not_unbroken_append hBreaks

/- A line with a command, right after the line before it. -/
def lineOf (name : String) (fields : List (String × Json)) : Line :=
  { pause := 0
    fresh := ""
    text :=
      Json.chars
        (Json.record ((Command.tagName, Json.str name) :: fields)) }

/- Track an order. -/
def trackLine : Line :=
  lineOf "track"
    [("client_order_id", .str "A"),
      ("trading_pair", .str "BTC-USDT"),
      ("order_type", .str "LIMIT"), ("trade_type", .str "BUY"),
      ("amount", .str "10"), ("price", .str "100")]

/- A fill of one unit of it at the highest quote amount. -/
def dearLine (tradeId : TradeId) (sequence : Nat) : Line :=
  lineOf "trade_update"
    [("trade_id", .str tradeId), ("client_order_id", .str "A"),
      ("fill_price", .str "1"), ("fill_base_amount", .str "1"),
      ("fill_quote_amount",
        .str "79228162514264337593543950335"),
      ("fee",
        Json.record [("asset", .str "USDT"), ("amount", .str "0")]),
      ("sequence", .nat sequence)]

/- Two such fills; at the end, a summary is asked for. -/
def dearLines : List Line :=
  [trackLine, dearLine "T1" 1, dearLine "T2" 2,
    lineOf "status" []]

/-
  The second fill ends the replay.  The first one has been
  printed, and the summary would be if the replay went on.
-/
theorem not_finishes_dearLines :
    let r := opening {} default
    ¬ r.Finishes dearLines ∧
      (r.run dearLines).2 = some .addition ∧
      (r.run dearLines).1.printed.length = 1 ∧
      (r.handleAll dearLines).printed.length = 2 := by
  intro r
  have hRun :
      (r.run dearLines).2 = some .addition ∧
        (r.run dearLines).1.printed.length = 1 ∧
        (r.handleAll dearLines).printed.length = 2 := by
    decide +kernel
  refine ⟨?_, hRun⟩
  intro hFinishes
  have hEnd : none = some Overflow.addition :=
    (congrArg Prod.snd hFinishes).symm.trans hRun.1
  cases hEnd

end Replay

end OrderWatch
