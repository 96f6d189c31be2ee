import OrderWatch.Proofs.Book.Places
import OrderWatch.Proofs.Desk.Deeds
import OrderWatch.Proofs.Desk.Fills
import OrderWatch.Proofs.Desk.Loss

/-
  Updates of different orders commute.

  An update does something to the place of its order alone,
  and what it does there, and what is answered, can be told
  from this place.  So a run of updates at one time does to
  the places what the updates of each name do to its own one.
  If the names are divided into two parts, and a list of
  updates has been merged of those for the one part and those
  for the other, then both go on as if they were by
  themselves, and it does not matter how they were merged.

  Books are not the same after updates in another order:
  their caches may differ in the order of use and in expired
  entries that are still there.  Neither shows in a place.

  Main declarations:
    * `Merges`
    * `Setting`, `Place.take`, `takeAll`
    * `takeAll_join`
    * `Desk.places_run`
    * `Desk.updates_commute`
-/

namespace OrderWatch

------------------------------------------------------------
-- Merged lists
------------------------------------------------------------

/- A list that two lists merge into, each in its own order. -/
inductive Merges {α : Type} : List α → List α → List α → Prop where
  | nil : Merges [] [] []
  | left
      {us vs ws : List α}
      (u : α)
      (rest : Merges us vs ws) :
      Merges (u :: us) vs (u :: ws)
  | right
      {us vs ws : List α}
      (v : α)
      (rest : Merges us vs ws) :
      Merges us (v :: vs) (v :: ws)

namespace Merges

variable {α : Type} {us vs ws : List α}

theorem nil_left
    (vs : List α) :
    Merges [] vs vs := by
  induction vs with
  | nil => exact .nil
  | cons v vs ih => exact .right v ih

/- One list after the other is one way to merge them. -/
theorem append
    (us vs : List α) :
    Merges us vs (us ++ vs) := by
  induction us with
  | nil => exact nil_left vs
  | cons u us ih => exact .left u ih

/- A list is merged with an empty one in one way only. -/
theorem eq_of_nil_left
    (hMerges : Merges [] vs ws) :
    ws = vs := by
  induction vs generalizing ws with
  | nil =>
      cases hMerges
      rfl
  | cons v vs ih =>
      cases hMerges with
      | right _ hRest => rw [ih hRest]

end Merges

------------------------------------------------------------
-- Places
------------------------------------------------------------

/- What all updates of one time have in common. -/
structure Setting where
  policy : TerminalPolicy
  clock : Time.Clock
  /- How long retired orders live. -/
  ttl : Nat

/- What an update does to the place of its order. -/
def Place.take
    (s : Setting)
    (u : Update)
    (p : Place) : Place × Answer :=
  match p.found with
  | none => (p, .verdict (.ignored (.unknownOrder u.orderId)))
  | some o =>
      let response := o.respond u s.clock.now s.policy
      let written := p.write response.1
      (if response.2.retire then
          (written.stop s.clock.elapsed).later s.ttl
            s.clock.elapsed
        else
          written,
        .verdict response.2.verdict)

theorem Place.take_unknown
    (s : Setting)
    (u : Update)
    {p : Place}
    (hFound : p.found = none) :
    p.take s u =
      (p, .verdict (.ignored (.unknownOrder u.orderId))) := by
  unfold Place.take
  rw [hFound]

theorem Place.take_known
    (s : Setting)
    (u : Update)
    {p : Place}
    {o : Order}
    (hFound : p.found = some o) :
    let response := o.respond u s.clock.now s.policy
    let written := p.write response.1
    p.take s u =
      (if response.2.retire then
          (written.stop s.clock.elapsed).later s.ttl
            s.clock.elapsed
        else
          written,
        .verdict response.2.verdict) := by
  unfold Place.take
  rw [hFound]

/- What is under all names. -/
abbrev Places := OrderId → Place

section Places

variable (s : Setting)

/- What an update does to all places. -/
def take (u : Update) (ps : Places) : Places × Answer :=
  let (p, answer) := (ps u.orderId).take s u
  (fun k => if k = u.orderId then p else ps k, answer)

/- What some updates do, and what is answered to each. -/
def takeAll :
    List Update → Places → Places × List (Update × Answer)
  | [], ps => (ps, [])
  | u :: us, ps =>
      let (ps, answer) := take s u ps
      let (ps, answers) := takeAll us ps
      (ps, (u, answer) :: answers)

/- The places of the one part of the names and the other. -/
def join (A : OrderId → Bool) (ps qs : Places) : Places :=
  fun k => if A k then ps k else qs k

variable {s} {A : OrderId → Bool}

/- What an update does, name by name. -/
theorem eq_take
    {u : Update}
    {ps qs : Places}
    {answer : Answer}
    (hOwn : (qs u.orderId, answer) = (ps u.orderId).take s u)
    (hOthers : ∀ k, k ≠ u.orderId → qs k = ps k) :
    (qs, answer) = take s u ps := by
  unfold take
  rw [← hOwn]
  refine Prod.ext (funext fun k => ?_) rfl
  change qs k = if k = u.orderId then qs u.orderId else ps k
  by_cases hSame : k = u.orderId
  · rw [if_pos hSame, hSame]
  · rw [if_neg hSame]
    exact hOthers k hSame

/- An update for the one part leaves the other alone. -/
theorem take_join_left
    {u : Update}
    (hIn : A u.orderId = true)
    (ps qs : Places) :
    take s u (join A ps qs) =
      (join A (take s u ps).1 qs, (take s u ps).2) := by
  have hOwn : join A ps qs u.orderId = ps u.orderId := by
    unfold join
    rw [if_pos hIn]
  unfold take
  rw [hOwn]
  refine Prod.ext ?_ rfl
  funext k
  unfold join
  by_cases hSame : k = u.orderId
  · simp [hSame, hIn]
  · simp [hSame]

theorem join_swap
    (A : OrderId → Bool)
    (ps qs : Places) :
    join A ps qs = join (fun k => !A k) qs ps := by
  funext k
  unfold join
  cases hPart : A k with
  | false => simp [hPart]
  | true => simp [hPart]

theorem take_join_right
    {u : Update}
    (hOut : A u.orderId = false)
    (ps qs : Places) :
    take s u (join A ps qs) =
      (join A ps (take s u qs).1, (take s u qs).2) := by
  have hIn : (!A u.orderId) = true := by rw [hOut]; rfl
  rw [join_swap, take_join_left hIn, ← join_swap]

/-
  However the updates for the two parts are merged, they do to
  each part what they do without the others, and are answered
  alike.  The induction follows the merging.
-/
theorem takeAll_join
    {us vs ws : List Update}
    (hMerges : Merges us vs ws)
    (hIn : ∀ u ∈ us, A u.orderId = true)
    (hOut : ∀ v ∈ vs, A v.orderId = false)
    (ps qs : Places) :
    (takeAll s ws (join A ps qs)).1 =
        join A (takeAll s us ps).1 (takeAll s vs qs).1 ∧
      Merges (takeAll s us ps).2 (takeAll s vs qs).2
        (takeAll s ws (join A ps qs)).2 := by
  induction hMerges generalizing ps qs with
  | nil => exact ⟨rfl, .nil⟩
  | left u _ ih =>
      have hOwn := hIn u List.mem_cons_self
      have hRest := fun v hMem =>
        hIn v (List.mem_cons_of_mem u hMem)
      rcases ih hRest hOut (take s u ps).1 qs with
        ⟨hPlaces, hAnswers⟩
      simp only [takeAll, take_join_left hOwn]
      exact ⟨hPlaces, .left _ hAnswers⟩
  | right v _ ih =>
      have hOwn := hOut v List.mem_cons_self
      have hRest := fun u hMem =>
        hOut u (List.mem_cons_of_mem v hMem)
      rcases ih hIn hRest ps (take s v qs).1 with
        ⟨hPlaces, hAnswers⟩
      simp only [takeAll, take_join_right hOwn]
      exact ⟨hPlaces, .right _ hAnswers⟩

theorem join_self
    (A : OrderId → Bool)
    (ps : Places) :
    join A ps ps = ps := by
  funext k
  unfold join
  split <;> rfl

/-
  Merged updates do what those for the one part do and then
  those for the other.
-/
theorem takeAll_merged
    {us vs ws : List Update}
    (hMerges : Merges us vs ws)
    (hIn : ∀ u ∈ us, A u.orderId = true)
    (hOut : ∀ v ∈ vs, A v.orderId = false)
    (ps : Places) :
    let first := takeAll s us ps
    let last := takeAll s vs first.1
    (takeAll s ws ps).1 = last.1 ∧
      Merges first.2 last.2 (takeAll s ws ps).2 := by
  intro first last
  have hFirst : first.1 = join A first.1 ps := by
    have hAlone :=
      takeAll_join (s := s) (Merges.append us []) hIn (by simp)
        ps ps
    rw [join_self, List.append_nil] at hAlone
    exact hAlone.1
  -- What comes later is answered as if it had come alone.
  have hLast :
      last.1 = join A first.1 (takeAll s vs ps).1 ∧
        last.2 = (takeAll s vs ps).2 := by
    have hAlone :=
      takeAll_join (s := s) (A := A) (Merges.nil_left vs)
        (by simp) hOut first.1 ps
    rw [← hFirst] at hAlone
    exact ⟨hAlone.1, hAlone.2.eq_of_nil_left⟩
  have hMixed := takeAll_join (s := s) hMerges hIn hOut ps ps
  rw [join_self] at hMixed
  rw [hLast.1, hLast.2]
  exact hMixed

end Places

------------------------------------------------------------
-- Desks
------------------------------------------------------------

/- A record is written, and its order may be retired. -/
theorem Book.place_settled
    {b : Book}
    {now : Nat}
    (hWhole : b.Whole)
    (o : Order)
    (retire : Bool)
    (hRoom :
      (if retire then
          ((b.write o).stop now o.id).2.getD 0
        else
          0) = 0)
    (k : OrderId) :
    (if retire then
        ((b.write o).stop now o.id).1
      else
        b.write o).place now k =
      if k = o.id then
        if retire then
          (((b.place now k).write o).stop now).later
            b.retired.ttl now
        else
          (b.place now k).write o
      else
        b.place now k := by
  have hWritten :
      (b.write o).place now k =
        if k = o.id then (b.place now k).write o
        else b.place now k :=
    place_write hWhole o k
  cases retire with
  | false =>
      simp only [Bool.false_eq_true, if_false]
      exact hWritten
  | true =>
      rw [if_pos rfl] at hRoom
      have hTtl : (b.write o).retired.ttl = b.retired.ttl :=
        ((lasting_made _ _).write (made_of_whole hWhole)).ttl_eq
      rw [if_pos rfl, if_pos rfl,
        place_stop_brief (whole_write hWhole o) hRoom, hWritten,
        hTtl]
      split <;> rfl

variable {L μ : Type}

namespace Desk

variable {hear : Hearing L μ} {d : Desk L μ}

def places (d : Desk L μ) : Places :=
  d.tracker.book.place d.tracker.now

def setting (d : Desk L μ) : Setting :=
  ⟨d.tracker.policy, d.tracker.clock, d.tracker.book.retired.ttl⟩

/- An update leaves what updates have in common. -/
theorem setting_process
    (hStill : hear.Still)
    (hWhole : d.tracker.book.Whole)
    (u : Update) :
    (d.process hear u).1.setting = d.setting := by
  have hMade :=
    lasting_process hStill.quiet (Book.lasting_made _ _)
      (Book.made_of_whole hWhole) u
  have hPolicy := policy_perform hStill.quiet d (.update u)
  have hClock :
      (d.process hear u).1.tracker.clock = d.tracker.clock := by
    cases hFound :
        (d.tracker.book.find d.tracker.now u.orderId).2 with
    | none =>
        exact
          Tracker.clock_of_core (process_unknown hear hFound).1
    | some o =>
        exact
          Tracker.clock_of_core (process_still hStill hFound).2
  unfold setting
  rw [hMade.ttl_eq, hClock]
  exact congrArg (fun policy => Setting.mk policy _ _) hPolicy

/-
  What an update does to the places of a desk can be told
  from these, if it pushes nothing out of the cache.
-/
theorem places_process
    (hStill : hear.Still)
    (hOwn : d.tracker.book.All Order.Own)
    {u : Update}
    (hRoom : d.displaced hear (.update u) = 0) :
    ((d.process hear u).1.places,
        Answer.verdict (d.process hear u).2) =
      take d.setting u d.places := by
  have hNow :
      (d.process hear u).1.tracker.now = d.tracker.now :=
    congrArg (fun s => s.clock.elapsed)
      (setting_process hStill hOwn.whole u)
  have hLooked :
      ∀ k,
        (d.tracker.book.find d.tracker.now
            u.orderId).1.place d.tracker.now k =
          d.tracker.book.place d.tracker.now k :=
    Book.place_find hOwn.whole u.orderId
  have hAnswer := d.tracker.book.find_place d.tracker.now u.orderId
  cases hFound :
      (d.tracker.book.find d.tracker.now u.orderId).2 with
  | none =>
      rcases process_unknown hear hFound with ⟨hCore, hVerdict⟩
      have hPlaces : (d.process hear u).1.places = d.places := by
        unfold places
        rw [hNow, Tracker.book_of_core hCore]
        exact funext hLooked
      rw [hFound] at hAnswer
      rw [hPlaces, hVerdict]
      apply eq_take
      · exact (Place.take_unknown d.setting u hAnswer.symm).symm
      · exact fun _ _ => rfl
  | some o =>
      rcases process_still hStill hFound with ⟨hVerdict, hCore⟩
      have hId :
          (o.respond u d.tracker.clock.now
            d.tracker.policy).1.id = u.orderId :=
        (o.id_respond u _ _).trans (hOwn.of_find hFound)
      have hTtl :
          (d.tracker.book.find d.tracker.now
              u.orderId).1.retired.ttl =
            d.tracker.book.retired.ttl :=
        ((Book.lasting_made _ _).find
          (Book.made_of_whole hOwn.whole)).ttl_eq
      rw [displaced_known hStill hFound] at hRoom
      have hSettled :=
        Book.place_settled (hOwn.find _ u.orderId).whole
          (o.respond u d.tracker.clock.now d.tracker.policy).1
          _ (by rw [hId]; exact hRoom)
      rw [hId, hTtl] at hSettled
      rw [hFound] at hAnswer
      rw [hVerdict]
      unfold places
      rw [hNow, Tracker.book_of_core hCore]
      apply eq_take
      · rw [hSettled, hLooked, if_pos rfl]
        exact (Place.take_known d.setting u hAnswer.symm).symm
      · intro k hOther
        rw [hSettled, hLooked, if_neg hOther]

------------------------------------------------------------
-- Runs
------------------------------------------------------------

/- A desk after some updates. -/
def updated
    (hear : Hearing L μ)
    (d : Desk L μ)
    (us : List Update) : Desk L μ :=
  (d.run hear (us.map .update)).1

/- The updates with what is answered to each. -/
def answered
    (hear : Hearing L μ)
    (d : Desk L μ)
    (us : List Update) : List (Update × Answer) :=
  us.zip (d.run hear (us.map .update)).2

/- A run of updates does to the places what can be told. -/
theorem places_run
    (hStill : hear.Still)
    (hOwn : d.tracker.book.All Order.Own)
    {us : List Update}
    (hRoom : Roomy hear d (us.map .update)) :
    ((d.updated hear us).places, d.answered hear us) =
        takeAll d.setting us d.places ∧
      (d.updated hear us).setting = d.setting := by
  induction us generalizing d with
  | nil => exact ⟨rfl, rfl⟩
  | cons u us ih =>
      rcases hRoom with ⟨hFirst, hRoom⟩
      have hTaken := places_process hStill hOwn hFirst
      have hSetting := setting_process hStill hOwn.whole u
      have hNext := own_perform hStill.quiet hOwn (.update u)
      rcases ih hNext hRoom with ⟨hRest, hLast⟩
      change
        _ = takeAll (d.process hear u).1.setting us
          (d.process hear u).1.places at hRest
      rw [hSetting] at hRest
      refine ⟨?_, hLast.trans hSetting⟩
      unfold takeAll
      rw [← hTaken]
      change _ = ((takeAll _ us _).1, _ :: (takeAll _ us _).2)
      rw [← hRest]
      rfl

/- Two desks that show the same, now and later. -/
theorem shows_alike
    {e : Desk L μ}
    (hWhole : d.tracker.book.Whole)
    (hWhole' : e.tracker.book.Whole)
    (hSetting : e.setting = d.setting)
    (hPlaces : e.places = d.places) :
    e.tracker.book.active = d.tracker.book.active ∧
      ∀ now, d.tracker.now ≤ now →
        e.tracker.book.retiredOrders now =
          d.tracker.book.retiredOrders now := by
  have hNow : e.tracker.now = d.tracker.now :=
    congrArg (fun s => s.clock.elapsed) hSetting
  have hTtl :
      e.tracker.book.retired.ttl = d.tracker.book.retired.ttl :=
    congrArg Setting.ttl hSetting
  refine ⟨?_, ?_⟩
  · apply Std.ExtTreeMap.ext_getElem?
    intro id
    exact congrArg Place.active (congrFun hPlaces id)
  · intro now hLater
    apply Book.retiredOrders_congr hWhole hWhole'
    intro id
    have hLast :
        e.tracker.book.place now id =
          d.tracker.book.place now id := by
      have hLater' : e.tracker.now ≤ now := hNow.trans_le hLater
      rw [Book.place_later hLater', Book.place_later hLater, hTtl]
      exact
        congrArg (Place.later · d.tracker.book.retired.ttl now)
          (congrFun hPlaces id)
    have hValue :=
      congrArg (fun p => p.retired.map Prod.fst) hLast
    unfold Book.place Cache.shown? at hValue
    simp only [Option.map_map] at hValue
    exact hValue

/-
  Updates of different orders commute.  Whatever has been done
  to a tracker before, updates for some names and updates for
  others may come in merged in any way: each is answered as
  if all of the first had come before the others, and the same
  orders are active and retired in the end.  No retirement may
  push an order out of the cache, and no listener may use the
  tracker.
-/
theorem updates_commute
    (hStill : hear.Still)
    (policy : TerminalPolicy)
    (capacity ttl : Nat)
    (clock : Time.Clock)
    (history : List Deed)
    (d : Desk L μ)
    (hHistory :
      d.tracker.core =
        ((Tracker.opening policy capacity ttl clock).afterAll
          history).core)
    (A : OrderId → Bool)
    (us vs ws : List Update)
    (hIn : ∀ u ∈ us, A u.orderId = true)
    (hOut : ∀ v ∈ vs, A v.orderId = false)
    (hMerges : Merges us vs ws) :
    let first := d.updated hear us
    let last := first.updated hear vs
    let mixed := d.updated hear ws
    Roomy hear d (us.map .update ++ vs.map .update) →
    Roomy hear d (ws.map .update) →
    Merges (d.answered hear us) (first.answered hear vs)
        (d.answered hear ws) ∧
      mixed.tracker.clock = last.tracker.clock ∧
      mixed.tracker.book.active = last.tracker.book.active ∧
      ∀ now, last.tracker.now ≤ now →
        mixed.tracker.book.retiredOrders now =
          last.tracker.book.retiredOrders now := by
  intro first last mixed hRoom hRoomMixed
  rcases along_append.mp hRoom with ⟨hRoomFirst, hRoomLast⟩
  have hOwn : d.tracker.book.All Order.Own := by
    rw [Tracker.book_of_core hHistory]
    exact
      Tracker.lasting_afterAll Book.lasting_own
        (Book.All.empty Order.Own capacity ttl) history
  have hOwnFirst : first.tracker.book.All Order.Own :=
    own_run hStill.quiet hOwn _
  have hOwnLast : last.tracker.book.All Order.Own :=
    own_run hStill.quiet hOwnFirst _
  have hOwnMixed : mixed.tracker.book.All Order.Own :=
    own_run hStill.quiet hOwn _
  rcases places_run hStill hOwn hRoomFirst with
    ⟨hFirst, hFirstSetting⟩
  rcases places_run hStill hOwnFirst hRoomLast with
    ⟨hLast, hLastSetting⟩
  rcases places_run hStill hOwn hRoomMixed with
    ⟨hMixed, hMixedSetting⟩
  have hSetting : mixed.setting = last.setting :=
    hMixedSetting.trans (hLastSetting.trans hFirstSetting).symm
  have hFirstPlaces :
      first.places = (takeAll d.setting us d.places).1 :=
    congrArg Prod.fst hFirst
  rw [hFirstSetting, hFirstPlaces] at hLast
  rcases takeAll_merged (s := d.setting) hMerges hIn hOut
      d.places with ⟨hPlaces, hAnswers⟩
  have hSame : mixed.places = last.places := by
    rw [← hMixed, ← hLast] at hPlaces
    exact hPlaces
  refine ⟨?_, congrArg Setting.clock hSetting, ?_⟩
  · rw [← hMixed, ← hLast, ← hFirst] at hAnswers
    exact hAnswers
  · exact
      shows_alike hOwnLast.whole hOwnMixed.whole hSetting hSame

/- What has been done to a tracker of two orders. -/
def twoStarted : List Deed :=
  [.start (.ofRequest Order.sampleRequest),
    .start (.ofRequest { Order.sampleRequest with id := "b" })]

def pair : Desk Unit Unit :=
  ⟨(Tracker.opening .once 2 10 default).afterAll twoStarted,
    .silent, ()⟩

/- The first order is done by a fill, and gets another. -/
def filledAgain : List Update :=
  [.fill Order.sampleFill, .fill halfFill]

/- The second order is cancelled. -/
def otherCancelled : List Update :=
  [.status
    { (default : StatusUpdate) with
      orderId := "b", status := .cancelled }]

/- It is cancelled between the two fills. -/
def between : List Update :=
  [.fill Order.sampleFill] ++ otherCancelled ++ [.fill halfFill]

theorem updates_commute_between :
    Roomy .idle pair
        (filledAgain.map .update ++
          otherCancelled.map .update) ∧
      Roomy .idle pair (between.map .update) ∧
      ((pair.updated .idle between).tracker.book.retiredOrders
          0).map Prod.fst = ["a", "b"] ∧
      Merges (pair.answered .idle filledAgain)
        ((pair.updated .idle filledAgain).answered .idle
          otherCancelled)
        (pair.answered .idle between) ∧
      (pair.updated .idle between).tracker.book.retiredOrders
          0 =
        ((pair.updated .idle filledAgain).updated .idle
          otherCancelled).tracker.book.retiredOrders 0 := by
  have hMerges :
      Merges filledAgain otherCancelled between :=
    .left _ (.right _ (.left _ .nil))
  have hRoom :
      Roomy .idle pair
        (filledAgain.map .update ++
          otherCancelled.map .update) := by
    refine ⟨?_, ?_, ?_, trivial⟩ <;> decide +kernel
  have hRoomMixed :
      Roomy .idle pair (between.map .update) := by
    refine ⟨?_, ?_, ?_, trivial⟩ <;> decide +kernel
  have hAlike :=
    updates_commute Hearing.still_idle .once 2 10 default
      twoStarted pair rfl (fun id => id == "a") filledAgain
      otherCancelled between (by decide +kernel)
      (by decide +kernel) hMerges hRoom hRoomMixed
  exact
    ⟨hRoom, hRoomMixed, by decide +kernel, hAlike.1,
      hAlike.2.2.2 0 (by decide +kernel)⟩

end Desk

end OrderWatch
