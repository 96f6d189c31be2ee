import OrderWatch.Proofs.Desk.Run

/-
  What holds of all records during a run.

  A property that holds of every order when it is started,
  and that the responses of a record to its updates keep,
  holds of all records at every point of a run: of the active
  ones and of the retired ones, expired or not.

  Main declarations:
    * `Book.All`
    * `Book.Lasting`, `Desk.lasting_run`
    * `Desk.policy_perform`, `Desk.fades_perform`
    * `Desk.all_process`
    * `Desk.all_run`
    * `Order.Own`, `Book.lasting_own`, `Desk.own_run`
-/

namespace OrderWatch

------------------------------------------------------------
-- Books
------------------------------------------------------------

namespace Book

/- Every record of a book has a property. -/
structure All
    (P : OrderId → Order → Prop)
    (b : Book) : Prop where
  whole : b.Whole
  holds : ∀ id o, b.Records id o → P id o

namespace All

variable {P : OrderId → Order → Prop} {b d : Book} {o : Order}

theorem empty
    (P : OrderId → Order → Prop)
    (capacity ttl : Nat) :
    (Book.empty capacity ttl).All P where
  whole := whole_empty capacity ttl
  holds := by
    intro id o hRecord
    rcases hRecord with hActive | hKept
    · simp [Book.empty] at hActive
    · simp [Book.empty, Cache.kept?, Cache.found?,
        Cache.empty] at hKept

theorem fades
    (h : b.All P)
    (hFades : b.Fades d)
    (hWhole : d.Whole) :
    d.All P where
  whole := hWhole
  holds := by
    intro id o hRecord
    exact h.holds id o (hFades.records id o hRecord)

theorem start
    (h : b.All P)
    (hStarted : P o.id o) :
    (b.start o).All P where
  whole := h.whole
  holds := by
    intro id p hRecord
    rcases records_start hRecord with ⟨rfl, rfl⟩ | hOld
    · exact hStarted
    · exact h.holds id p hOld

theorem write
    (h : b.All P)
    (hWritten : P o.id o) :
    (b.write o).All P where
  whole := whole_write h.whole o
  holds := by
    intro id p hRecord
    rcases records_write h.whole hRecord with
      ⟨rfl, rfl⟩ | hOld
    · exact hWritten
    · exact h.holds id p hOld

theorem stop
    (h : b.All P)
    (now : Nat)
    (id : OrderId) :
    (b.stop now id).1.All P :=
  h.fades (fades_stop h.whole now id) (whole_stop h.whole now id)

theorem find
    (h : b.All P)
    (now : Nat)
    (id : OrderId) :
    (b.find now id).1.All P :=
  h.fades (fades_find h.whole now id) (whole_find h.whole now id)

/- What is found is on record under its name. -/
theorem of_find
    (h : b.All P)
    {now : Nat}
    {id : OrderId}
    (hFound : (b.find now id).2 = some o) :
    P id o :=
  h.holds id o
    (records_of_latest? (latest?_of_find h.whole hFound).1)

/- The entries of the cache are among the records. -/
theorem of_entries
    (h : b.All P)
    {e : Cache.Entry OrderId Order}
    (hMem : e ∈ b.retired.entries) :
    P e.key e.value :=
  h.holds e.key e.value (.inr (h.whole.kept?_of_mem hMem))

end All

end Book

/- A property of books that whatever is done to them keeps. -/
structure Book.Lasting (P : Book → Prop) : Prop where
  start : ∀ {b o}, P b → P (b.start o)
  write : ∀ {b o}, P b → P (b.write o)
  stop : ∀ {b now id}, P b → P (b.stop now id).1
  findRetired : ∀ {b now id}, P b → P (b.findRetired now id).1
  purge : ∀ {b now}, P b → P (b.purge now).1

/- The same, but for the start of an order. -/
structure Book.Steady (P : Book → Prop) : Prop where
  write : ∀ {b o}, P b → P (b.write o)
  stop : ∀ {b now id}, P b → P (b.stop now id).1
  findRetired : ∀ {b now id}, P b → P (b.findRetired now id).1
  purge : ∀ {b now}, P b → P (b.purge now).1

namespace Book

variable {P : Book → Prop} {b : Book} {now : Nat} {id : OrderId}

theorem Lasting.steady
    (hLasting : Lasting P) :
    Steady P where
  write := hLasting.write
  stop := hLasting.stop
  findRetired := hLasting.findRetired
  purge := hLasting.purge

theorem Steady.find
    (hSteady : Steady P)
    (h : P b) :
    P (b.find now id).1 := by
  unfold Book.find
  split
  · exact h
  · exact hSteady.findRetired h

theorem Lasting.find
    (hLasting : Lasting P)
    (h : P b) :
    P (b.find now id).1 :=
  hLasting.steady.find h

/- A whole book whose cache has been made in one way. -/
structure Made (capacity ttl : Nat) (b : Book) : Prop where
  whole : b.Whole
  capacity_eq : b.retired.capacity = capacity
  ttl_eq : b.retired.ttl = ttl

theorem made_empty
    (capacity ttl : Nat) :
    (empty capacity ttl).Made capacity ttl where
  whole := whole_empty capacity ttl
  capacity_eq := rfl
  ttl_eq := rfl

theorem made_of_whole
    (hWhole : b.Whole) :
    b.Made b.retired.capacity b.retired.ttl where
  whole := hWhole
  capacity_eq := rfl
  ttl_eq := rfl

theorem Made.follows
    {capacity ttl now : Nat}
    {b d : Book}
    (hMade : b.Made capacity ttl)
    (hFollows : b.retired.Follows d.retired now) :
    d.Made capacity ttl where
  whole := hFollows.whole hMade.whole
  capacity_eq := hFollows.capacity_eq.trans hMade.capacity_eq
  ttl_eq := hFollows.ttl_eq.trans hMade.ttl_eq

theorem lasting_made
    (capacity ttl : Nat) :
    Lasting (Made capacity ttl) where
  start := fun {b _} hMade =>
    hMade.follows (Cache.Follows.refl b.retired 0)
  write := fun {b o} hMade => hMade.follows (b.follows_write o 0)
  stop := fun {b now id} hMade =>
    hMade.follows (b.follows_stop now id)
  findRetired := fun {b now id} hMade =>
    hMade.follows (b.retired.follows_get now id)
  purge := fun {b now} hMade =>
    hMade.follows (b.retired.follows_purge now)

end Book

------------------------------------------------------------
-- Desks
------------------------------------------------------------

/- An action that neither starts an order nor updates one. -/
def Action.LetsGo : Action → Prop
  | .start _ | .update _ => False
  | _ => True

namespace Desk

variable {L μ : Type} {hear : Hearing L μ} {d : Desk L μ}

/- The policy is never changed. -/
theorem policy_perform
    (hQuiet : hear.Quiet)
    (d : Desk L μ)
    (a : Action) :
    (d.perform hear a).1.tracker.policy = d.tracker.policy := by
  cases a with
  | update u =>
      cases hFound :
          (d.tracker.book.find d.tracker.now u.orderId).2 with
      | none =>
          have hCore := (process_unknown hear hFound).1
          exact Tracker.policy_of_core hCore
      | some o =>
          have hCore := (process_known hQuiet hFound).2
          exact Tracker.policy_of_core hCore
  | _ => exact Tracker.policy_of_core (core_perform hear d (by simp))

/- To let go of orders is not told. -/
theorem events_of_letsGo
    (hear : Hearing L μ)
    (d : Desk L μ)
    {a : Action}
    (hLetsGo : a.LetsGo) :
    (d.perform hear a).2.events = [] := by
  cases a with
  | start o => contradiction
  | update u => contradiction
  | _ => rfl

/- Other actions than starts and updates only let go. -/
theorem fades_perform
    (hear : Hearing L μ)
    (hWhole : d.tracker.book.Whole)
    {a : Action}
    (hLetsGo : a.LetsGo) :
    d.tracker.book.Fades (d.perform hear a).1.tracker.book ∧
      (d.perform hear a).1.tracker.book.Whole := by
  have hOther : ∀ u, a ≠ .update u := by
    rintro u rfl
    exact hLetsGo
  rw [book_perform hear d hOther]
  cases a with
  | start o => contradiction
  | update u => contradiction
  | stop id =>
      exact
        ⟨Book.fades_stop hWhole d.tracker.now id,
          Book.whole_stop hWhole d.tracker.now id⟩
  | fetch id =>
      exact
        ⟨Book.fades_find hWhole d.tracker.now id,
          Book.whole_find hWhole d.tracker.now id⟩
  | fetchRetired id =>
      exact
        ⟨Book.fades_findRetired hWhole d.tracker.now id,
          Book.whole_findRetired hWhole d.tracker.now id⟩
  | purge =>
      exact
        ⟨Book.fades_purge hWhole d.tracker.now,
          Book.whole_purge hWhole d.tracker.now⟩
  | sweep =>
      exact
        ⟨Book.fades_purge hWhole d.tracker.now,
          Book.whole_purge hWhole d.tracker.now⟩
  | _ => exact ⟨Book.Fades.refl d.tracker.book, hWhole⟩

section Lasting

variable {Q : Book → Prop}

/- To bring a record up to date is to look up and write. -/
theorem lasting_received
    (hLasting : Book.Lasting Q)
    (h : Q d.tracker.book)
    (u : Update) :
    Q (d.received u).tracker.book := by
  have hLooked :
      Q (d.tracker.book.find d.tracker.now u.orderId).1 :=
    hLasting.find h
  unfold received
  cases hFound :
      (d.tracker.book.find d.tracker.now u.orderId).2 with
  | none =>
      have hCore := (Tracker.receive_unknown hFound).1
      exact (Tracker.book_of_core hCore).symm ▸ hLooked
  | some o =>
      have hCore := (Tracker.receive_known hFound).1
      exact
        (Tracker.book_of_core hCore).symm ▸ hLasting.write hLooked

theorem lasting_process
    (hQuiet : hear.Quiet)
    (hLasting : Book.Lasting Q)
    (h : Q d.tracker.book)
    (u : Update) :
    Q (d.process hear u).1.tracker.book := by
  have hHeard : Q (d.heard hear u).tracker.book := by
    rw [book_heard_received hQuiet]
    exact lasting_received hLasting h u
  rw [process_eq]
  split
  · have hCore :=
      ((d.heard hear u).tracker.core_stop u.orderId).1
    exact
      (Tracker.book_of_core hCore).symm ▸ hLasting.stop hHeard
  · exact hHeard

theorem lasting_perform
    (hQuiet : hear.Quiet)
    (hLasting : Book.Lasting Q)
    (h : Q d.tracker.book)
    (a : Action) :
    Q (d.perform hear a).1.tracker.book := by
  cases a with
  | update u => exact lasting_process hQuiet hLasting h u
  | start o => exact hLasting.start h
  | fetch id => exact hLasting.find h
  | fetchRetired id => exact hLasting.findRetired h
  | stop id =>
      rw [book_perform hear d (by simp)]
      exact hLasting.stop h
  | purge =>
      rw [book_perform hear d (by simp)]
      exact hLasting.purge h
  | sweep =>
      rw [book_perform hear d (by simp)]
      exact hLasting.purge h
  | _ => exact h

/- What all operations keep holds throughout a run. -/
theorem lasting_run
    (hQuiet : hear.Quiet)
    (hLasting : Book.Lasting Q)
    (h : Q d.tracker.book)
    (as : List Action) :
    Q (d.run hear as).1.tracker.book := by
  induction as generalizing d with
  | nil => exact h
  | cons a as ih => exact ih (lasting_perform hQuiet hLasting h a)

end Lasting

/- The cache stays as it has been made. -/
theorem made_run
    (hQuiet : hear.Quiet)
    (policy : TerminalPolicy)
    (capacity ttl : Nat)
    (clock : Time.Clock)
    (sink : Sink L)
    (memory : μ)
    (as : List Action) :
    ((opening policy capacity ttl clock sink memory).run hear
      as).1.tracker.book.Made capacity ttl :=
  lasting_run hQuiet (Book.lasting_made capacity ttl)
    (Book.made_empty capacity ttl) as

variable {P : OrderId → Order → Prop}

/- A property of records that their responses keep. -/
def KeptByUpdates (P : OrderId → Order → Prop) : Prop :=
  ∀ o u time policy, P u.orderId o →
    P (o.respond u time policy).1.id (o.respond u time policy).1

/- An update keeps what its response keeps. -/
theorem all_process
    (hQuiet : hear.Quiet)
    (hKept : KeptByUpdates P)
    (hAll : d.tracker.book.All P)
    (u : Update) :
    (d.process hear u).1.tracker.book.All P := by
  have hLooked := hAll.find d.tracker.now u.orderId
  cases hFound :
      (d.tracker.book.find d.tracker.now u.orderId).2 with
  | none =>
      have hCore := (process_unknown hear hFound).1
      have hBook := Tracker.book_of_core hCore
      rw [hBook]
      exact hLooked
  | some o =>
      have hCore := (process_known hQuiet hFound).2
      have hBook := Tracker.book_of_core hCore
      have hWritten :=
        hLooked.write
          (hKept o u d.tracker.clock.now d.tracker.policy
            (hAll.of_find hFound))
      rw [hBook]
      split
      · exact hWritten.stop _ u.orderId
      · exact hWritten

/-
  An update that finds a record leaves its response as the
  latest record of the name, if any is left, and other names
  have their latest records or none.
-/
theorem latest?_process
    (hQuiet : hear.Quiet)
    (hWhole : d.tracker.book.Whole)
    {u : Update}
    {o : Order}
    (hId : o.id = u.orderId)
    (hFound :
      (d.tracker.book.find d.tracker.now u.orderId).2 =
        some o)
    (id : OrderId) :
    let response :=
      o.respond u d.tracker.clock.now d.tracker.policy
    let latest :=
      if id = u.orderId then some response.1
      else d.tracker.book.latest? id
    (d.process hear u).1.tracker.book.latest? id = none ∨
      (d.process hear u).1.tracker.book.latest? id = latest := by
  intro response latest
  have hLooked := Book.fades_find hWhole d.tracker.now u.orderId
  have hWhole' :=
    Book.whole_find hWhole d.tracker.now u.orderId
  have hOwn : response.1.id = u.orderId :=
    (o.id_respond u _ _).trans hId
  have hWritten :=
    Book.latest?_write hWhole' hOwn
      (Book.latest?_of_find hWhole hFound).2 id
  have hAfter :
      ((d.tracker.book.find d.tracker.now u.orderId).1.write
          response.1).latest? id = none ∨
        ((d.tracker.book.find d.tracker.now u.orderId).1.write
          response.1).latest? id = latest := by
    rw [hWritten]
    by_cases hSame : id = u.orderId
    · simp only [latest, if_pos hSame, or_true]
    · simp only [latest, if_neg hSame]
      exact hLooked.latest id
  have hCore := (process_known hQuiet hFound).2
  rw [Tracker.book_of_core hCore]
  split
  · have hStopped :=
      Book.fades_stop (Book.whole_write hWhole' response.1)
        (d.heard hear u).tracker.now u.orderId
    rcases hStopped.latest id with hNone | hSame
    · exact .inl hNone
    · rw [hSame]
      exact hAfter
  · exact hAfter

/- One action keeps a property of all records. -/
theorem all_perform
    (hQuiet : hear.Quiet)
    (hKept : KeptByUpdates P)
    (hAll : d.tracker.book.All P)
    {a : Action}
    (hStarted : ∀ o, a = .start o → P o.id o) :
    (d.perform hear a).1.tracker.book.All P := by
  by_cases hLetsGo : a.LetsGo
  · rcases fades_perform hear hAll.whole hLetsGo with
      ⟨hFades, hWhole⟩
    exact hAll.fades hFades hWhole
  · cases a with
    | start o => exact hAll.start (hStarted o rfl)
    | update u => exact all_process hQuiet hKept hAll u
    | _ => exact absurd trivial hLetsGo

/- A whole run keeps a property of all records. -/
theorem all_run
    (hQuiet : hear.Quiet)
    (hKept : KeptByUpdates P)
    (hAll : d.tracker.book.All P)
    {as : List Action}
    (hStarted : ∀ o, .start o ∈ as → P o.id o) :
    (d.run hear as).1.tracker.book.All P := by
  induction as generalizing d with
  | nil => exact hAll
  | cons a as ih =>
      have hNext :
          (d.perform hear a).1.tracker.book.All P := by
        apply all_perform hQuiet hKept hAll
        rintro o rfl
        exact hStarted o (by simp)
      apply ih hNext
      intro o hMem
      exact hStarted o (by simp [hMem])

theorem policy_run
    (hQuiet : hear.Quiet)
    (d : Desk L μ)
    (as : List Action) :
    (d.run hear as).1.tracker.policy = d.tracker.policy := by
  induction as generalizing d with
  | nil => rfl
  | cons a as ih =>
      exact (ih (d.perform hear a).1).trans
        (policy_perform hQuiet d a)

end Desk

------------------------------------------------------------
-- Names
------------------------------------------------------------

/- A record that lies under its own name. -/
def Order.Own (id : OrderId) (o : Order) : Prop :=
  o.id = id

/- Whatever is done to books, records lie under their names. -/
theorem Book.lasting_own :
    Book.Lasting (Book.All Order.Own) where
  start := fun hOwn => hOwn.start rfl
  write := fun hOwn => hOwn.write rfl
  stop := fun {_ now id} hOwn => hOwn.stop now id
  findRetired := fun {_ now id} hOwn =>
    hOwn.fades (fades_findRetired hOwn.whole now id)
      (whole_findRetired hOwn.whole now id)
  purge := fun {_ now} hOwn =>
    hOwn.fades (fades_purge hOwn.whole now)
      (whole_purge hOwn.whole now)

namespace Desk

variable {L μ : Type} {hear : Hearing L μ} {d : Desk L μ}

theorem own_respond :
    KeptByUpdates Order.Own :=
  fun _ _ _ _ _ => rfl

theorem own_perform
    (hQuiet : hear.Quiet)
    (hOwn : d.tracker.book.All Order.Own)
    (a : Action) :
    (d.perform hear a).1.tracker.book.All Order.Own :=
  all_perform hQuiet own_respond hOwn (fun _ _ => rfl)

theorem own_run
    (hQuiet : hear.Quiet)
    (hOwn : d.tracker.book.All Order.Own)
    (as : List Action) :
    (d.run hear as).1.tracker.book.All Order.Own :=
  all_run hQuiet own_respond hOwn (fun _ _ => rfl)

end Desk

end OrderWatch
