import Hotplug.Proofs.WorkQueue.Coherence
import Hotplug.WorkQueue.Bell
/-!
The work queue with its one worker. Adding a key or handing one back rings in the same step.
The worker looks and then waits, which are two steps; a shutdown closes the queue, rings for
all and rings for one, which are three. All steps come in any order, any number of times.

A worker that waits does not hear of the closing itself, only of the rings that follow it. One
worker is what makes a single kept ring enough: of two that have found nothing and do not wait
yet, only one hears of two keys that come then.
-/
namespace Hotplug

inductive Post where
  | looking
  /-- It found nothing and does not wait yet. -/
  | turning
  /-- It waits, or it was called and has not resumed. -/
  | atBell
  | busy (key : String)
  | gone
  deriving DecidableEq, Repr

structure Station where
  staffed : StaffedQueue Unit := {}
  post : Post := .looking
  delayed : List String := []
  -- the shutdowns that have yet to ring for all, those that have yet to ring for one, and those
  -- that are over
  closing : Nat := 0
  leaving : Nat := 0
  rung : Nat := 0
  deriving DecidableEq, Repr

namespace Station

inductive Event where
  | add (key : String)
  | done (key : String)
  | putOff (key : String)
  | fire (key : String)
  | forget (key : String)
  | close
  | ringAll
  | ringOne
  -- the moves of the worker
  | look
  | await
  | resume
  | handBack
  deriving DecidableEq, Repr

end Station

def Post.after : WorkQueue.Offer → Post
  | .key key => .busy key
  | .closed => .gone
  | .nothing => .turning

namespace Station

def ringing (s : Station) : Nat := s.closing + s.leaving

def look (s : Station) : Station :=
  match s.post with
  | .looking =>
    { s with
      staffed.work := s.staffed.work.get.2
      post := .after s.staffed.work.get.1 }
  | _ => s

def await (s : Station) : Station :=
  match s.post with
  | .turning => { s with staffed.bell := s.staffed.bell.await (), post := .atBell }
  | _ => s

def resume (s : Station) : Station :=
  match s.post, s.staffed.bell.called with
  | .atBell, () :: called => { s with staffed.bell.called := called, post := .looking }
  | _, _ => s

def handBack (s : Station) : Station :=
  match s.post with
  | .busy key => { s with staffed := s.staffed.done key, post := .looking }
  | _ => s

def step (s : Station) : Event → Station
  | .add key => { s with staffed := s.staffed.add key }
  | .done key => { s with staffed := s.staffed.done key }
  | .putOff key =>
    { s with
      staffed.work := s.staffed.work.countRequeue key
      delayed := key :: s.delayed }
  | .fire key =>
    if key ∈ s.delayed then
      { s with staffed := s.staffed.add key, delayed := s.delayed.erase key }
    else s
  | .forget key => { s with staffed.work := s.staffed.work.forget key }
  | .close => { s with staffed.work := s.staffed.work.shutDown, closing := s.closing + 1 }
  | .ringAll =>
    match s.closing with
    | 0 => s
    | closing + 1 =>
      { s with staffed.bell := s.staffed.bell.ringAll, closing, leaving := s.leaving + 1 }
  | .ringOne =>
    match s.leaving with
    | 0 => s
    | leaving + 1 =>
      { s with staffed.bell := s.staffed.bell.ringOne, leaving, rung := s.rung + 1 }
  | .look => s.look
  | .await => s.await
  | .resume => s.resume
  | .handBack => s.handBack

def run (s : Station) (events : List Event) : Station := events.foldl step s

def play (events : List Event) : Station := run {} events

/-- The worker waits, was not called, and no ring is kept for it. -/
def Idle (s : Station) : Prop :=
  s.post = .atBell ∧ s.staffed.bell.isKept = false ∧ s.staffed.bell.called = []

variable {s t : Station}

/-- A look that is not disturbed is a look of one worker among others. -/
theorem look_await (looking : s.post = .looking) :
    (s.run [.look, .await]).staffed = (s.staffed.look ()).2 := by
  simp only [run, List.foldl_cons, List.foldl_nil, step, look, looking, StaffedQueue.look]
  obtain ⟨offer, work⟩ := s.staffed.work.get
  cases offer <;> rfl

theorem close_ring (calm : s.ringing = 0) : s.run [.close, .ringAll, .ringOne] =
    { s with staffed := s.staffed.shutDown, rung := s.rung + 1 } := by
  obtain ⟨closing, leaving⟩ : s.closing = 0 ∧ s.leaving = 0 := Nat.add_eq_zero_iff.mp calm
  simp [run, step, closing, leaving, StaffedQueue.shutDown]

end Station

namespace Post

variable {post : Post} {bell : Bell Unit}

def isFree : Post → Bool
  | .looking | .turning | .atBell => true
  | .busy _ | .gone => false

def Fits (post : Post) (bell : Bell Unit) : Prop :=
  match post with
  | .atBell =>
    bell.waiting = [()] ∧ bell.called = [] ∧ bell.isKept = false ∨
      bell.waiting = [] ∧ bell.called = [()]
  | _ => bell.waiting = [] ∧ bell.called = []

/-- The worker looks again before it waits for another ring. -/
def Heeds (post : Post) (bell : Bell Unit) : Prop :=
  match post with
  | .turning => bell.isKept = true
  | .atBell => bell.called ≠ []
  | _ => True

theorem Fits.ringOne (fits : post.Fits bell) : post.Fits bell.ringOne := by
  cases post with
  | atBell =>
    rcases fits with ⟨waiting, called, -⟩ | ⟨waiting, called⟩
    · exact .inr (by simp [Bell.ringOne, waiting, called])
    · exact .inr (by simp [Bell.ringOne, waiting, called])
  | looking | turning | busy | gone =>
    obtain ⟨waiting, called⟩ := fits
    simp [Fits, Bell.ringOne, waiting, called]

theorem Fits.ringAll (fits : post.Fits bell) : post.Fits bell.ringAll := by
  cases post with
  | atBell =>
    rcases fits with ⟨waiting, called, -⟩ | ⟨waiting, called⟩
    · exact .inr (by simp [Bell.ringAll, waiting, called])
    · exact .inr (by simp [Bell.ringAll, waiting, called])
  | looking | turning | busy | gone =>
    obtain ⟨waiting, called⟩ := fits
    simp [Fits, Bell.ringAll, waiting, called]

/-- One ring is enough, wherever the worker is. -/
theorem Fits.heeds_ringOne (fits : post.Fits bell) : post.Heeds bell.ringOne := by
  cases post with
  | atBell =>
    rcases fits with ⟨waiting, -, -⟩ | ⟨waiting, called⟩
    · simp [Heeds, Bell.ringOne, waiting]
    · simp [Heeds, Bell.ringOne, waiting, called]
  | turning => simp [Heeds, Bell.ringOne, fits.1]
  | looking | busy | gone => trivial

theorem Heeds.ringAll (heeds : post.Heeds bell) : post.Heeds bell.ringAll := by
  cases post with
  | atBell => simpa [Heeds, Bell.ringAll] using fun called => absurd called heeds
  | turning => exact heeds
  | looking | busy | gone => trivial

/-- Beginning to wait neither loses a ring that is kept nor makes one up. -/
theorem Fits.await (fits : turning.Fits bell) : atBell.Fits (bell.await ()) := by
  obtain ⟨waiting, called⟩ := fits
  cases kept : bell.isKept with
  | true => exact .inr (by simp [Bell.await, kept, waiting, called])
  | false => exact .inl (by simp [Bell.await, kept, waiting, called])

theorem Heeds.await (heeds : turning.Heeds bell) : atBell.Heeds (bell.await ()) := by
  have kept : bell.isKept = true := heeds
  simp [Heeds, Bell.await, kept]

end Post

namespace Station

variable {s t : Station}

/-- The worker heeds what there is to look for: a key, or that a shutdown has rung. Every shutdown
that closed the queue is counted. -/
structure Attended (s : Station) : Prop where
  fits : s.post.Fits s.staffed.bell
  queued : s.staffed.work.queue ≠ [] → s.post.Heeds s.staffed.bell
  heard : 0 < s.rung → s.post.Heeds s.staffed.bell
  closed : s.staffed.work.isShutDown = true ↔ 0 < s.ringing + s.rung

theorem attended_empty : Attended {} where
  fits := ⟨rfl, rfl⟩
  queued := by simp
  heard := by simp
  closed := by simp [ringing]

theorem Attended.ring (h : s.Attended) (post : t.post = s.post)
    (bell : t.staffed.bell = s.staffed.bell.ringOne)
    (closed : t.staffed.work.isShutDown = s.staffed.work.isShutDown)
    (shutdowns : t.ringing + t.rung = s.ringing + s.rung) : t.Attended := by
  have fits := h.fits.ringOne
  have heeds := h.fits.heeds_ringOne
  rw [← post, ← bell] at fits heeds
  refine ⟨fits, fun _ => heeds, fun _ => heeds, ?_⟩
  rw [closed, shutdowns]
  exact h.closed

theorem Attended.keep (h : s.Attended) (post : t.post = s.post)
    (bell : t.staffed.bell = s.staffed.bell)
    (queue : t.staffed.work.queue = s.staffed.work.queue)
    (closed : t.staffed.work.isShutDown = s.staffed.work.isShutDown)
    (ringing : t.ringing = s.ringing) (rung : t.rung = s.rung) : t.Attended := by
  refine ⟨?_, ?_, ?_, ?_⟩
  · rw [post, bell]
    exact h.fits
  · rw [post, bell, queue]
    exact h.queued
  · rw [post, bell, rung]
    exact h.heard
  · rw [closed, ringing, rung]
    exact h.closed

theorem Attended.add (h : s.Attended) (key : String) (delayed : List String) :
    Attended { s with staffed := s.staffed.add key, delayed } := by
  cases admitted : s.staffed.work.admits key with
  | true =>
    exact h.ring rfl (by simp [StaffedQueue.add, StaffedQueue.ringIf, admitted])
      (WorkQueue.add_isShutDown s.staffed.work key) rfl
  | false =>
    refine h.keep rfl (by simp [StaffedQueue.add, StaffedQueue.ringIf, admitted]) ?_
      (WorkQueue.add_isShutDown s.staffed.work key) rfl rfl
    exact WorkQueue.add_queue_of_not_admitted admitted

theorem Attended.done (h : s.Attended) (key : String) :
    Attended { s with staffed := s.staffed.done key } := by
  cases awaited : s.staffed.work.isAwaited key with
  | true =>
    exact h.ring rfl (by simp [StaffedQueue.done, StaffedQueue.ringIf, awaited]) rfl rfl
  | false =>
    refine h.keep rfl (by simp [StaffedQueue.done, StaffedQueue.ringIf, awaited]) ?_ rfl rfl rfl
    simp [StaffedQueue.done, WorkQueue.done, awaited]

theorem Attended.look (h : s.Attended) : s.look.Attended := by
  unfold Station.look
  split
  · rename_i looking
    have calm : s.staffed.bell.waiting = [] ∧ s.staffed.bell.called = [] := by
      have fits := h.fits
      rwa [looking] at fits
    cases got : s.staffed.work.get with
    | mk offer work =>
      rcases WorkQueue.get_cases got with ⟨key, rest, -, rfl, rfl⟩ | ⟨queue, rfl, rfl⟩
      · exact ⟨calm, fun _ => trivial, fun _ => trivial, h.closed⟩
      · cases shut : s.staffed.work.isShutDown with
        | true => exact ⟨calm, fun _ => trivial, fun _ => trivial, h.closed⟩
        | false =>
          -- it turns away from an open queue without keys: all that changes this from now on rings
          have unrung : ¬ 0 < s.rung := by
            intro rung
            have closed := h.closed.mpr (by omega)
            rw [shut] at closed
            cases closed
          exact ⟨calm, fun some => absurd queue some, fun rung => absurd rung unrung, h.closed⟩
  · exact h

theorem Attended.await (h : s.Attended) : s.await.Attended := by
  unfold Station.await
  split
  · rename_i turning
    have ⟨fits, queued, heard, closed⟩ := h
    rw [turning] at fits queued heard
    exact ⟨fits.await, fun queue => (queued queue).await, fun rung => (heard rung).await, closed⟩
  · exact h

theorem Attended.resume (h : s.Attended) : s.resume.Attended := by
  unfold Station.resume
  split
  · rename_i called atBell calls
    have fits := h.fits
    rw [atBell] at fits
    have alone : s.staffed.bell.waiting = [] ∧ called = [] := by
      rcases fits with ⟨-, none, -⟩ | ⟨waiting, one⟩
      · simp [calls] at none
      · exact ⟨waiting, by simpa [calls] using one⟩
    exact ⟨alone, fun _ => trivial, fun _ => trivial, h.closed⟩
  · exact h

theorem Attended.handBack (h : s.Attended) : s.handBack.Attended := by
  unfold Station.handBack
  split
  · rename_i key busy
    have done := h.done key
    have fits := done.fits
    rw [busy] at fits
    exact ⟨fits, fun _ => trivial, fun _ => trivial, done.closed⟩
  · exact h

theorem Attended.close (h : s.Attended) : (s.step .close).Attended := by
  refine ⟨h.fits, h.queued, h.heard, ?_⟩
  simp only [Station.step, WorkQueue.shutDown, ringing, true_iff]
  omega

theorem Attended.ringAll (h : s.Attended) : (s.step .ringAll).Attended := by
  simp only [Station.step]
  split
  · exact h
  · rename_i closing underWay
    refine ⟨h.fits.ringAll, fun queue => (h.queued queue).ringAll,
      fun rung => (h.heard rung).ringAll, ?_⟩
    have closed := h.closed
    simp only [ringing, underWay] at closed ⊢
    rw [closed]
    omega

theorem Attended.ringOne (h : s.Attended) : (s.step .ringOne).Attended := by
  simp only [Station.step]
  split
  · exact h
  · rename_i leaving underWay
    refine h.ring rfl rfl rfl ?_
    simp only [ringing, underWay]
    omega

theorem Attended.step (h : s.Attended) (event : Event) : (s.step event).Attended := by
  cases event with
  | add key => exact h.add key s.delayed
  | done key => exact h.done key
  | putOff key => exact h.keep rfl rfl rfl rfl rfl rfl
  | fire key =>
    simp only [Station.step]
    split
    · exact h.add key _
    · exact h
  | forget key => exact h.keep rfl rfl rfl rfl rfl rfl
  | close => exact h.close
  | ringAll => exact h.ringAll
  | ringOne => exact h.ringOne
  | look => exact h.look
  | await => exact h.await
  | resume => exact h.resume
  | handBack => exact h.handBack

theorem Attended.run (h : s.Attended) (events : List Event) : (s.run events).Attended := by
  induction events generalizing s with
  | nil => exact h
  | cons event events ih => exact ih (h.step event)

theorem attended_play (events : List Event) : (play events).Attended :=
  attended_empty.run events

/-- A worker that heeds the bell and holds no key looks in its next three moves. -/
theorem looks_again (fits : s.post.Fits s.staffed.bell) (heeds : s.post.Heeds s.staffed.bell)
    (free : s.post.isFree = true) :
    (s.run [.await, .resume, .look]).post = .after s.staffed.work.get.1 := by
  simp only [run, List.foldl_cons, List.foldl_nil, step]
  cases post : s.post with
  | looking => simp [await, resume, look, post]
  | turning =>
    rw [post] at fits heeds
    have kept : s.staffed.bell.isKept = true := heeds
    simp [await, resume, look, post, Bell.await, kept, fits.2]
  | atBell =>
    rw [post] at fits heeds
    rcases fits with ⟨-, uncalled, -⟩ | ⟨-, called⟩
    · exact absurd uncalled heeds
    · simp [await, resume, look, post, called]
  | busy | gone => simp [post, Post.isFree] at free

theorem Idle.unheard (idle : s.Idle) : ¬ s.post.Heeds s.staffed.bell := by
  obtain ⟨atBell, -, uncalled⟩ := idle
  rw [atBell]
  exact fun heeds => heeds uncalled

theorem Attended.waits (h : s.Attended) (idle : s.Idle) : s.staffed.bell.waiting = [()] := by
  have fits := h.fits
  obtain ⟨atBell, -, uncalled⟩ := idle
  rw [atBell] at fits
  rcases fits with ⟨waiting, -, -⟩ | ⟨-, called⟩
  · exact waiting
  · rw [uncalled] at called
    cases called

theorem Attended.ringAll_calls (h : s.Attended) (idle : s.Idle) (closing : 0 < s.closing) :
    (s.step .ringAll).staffed.bell.called = [()] := by
  obtain ⟨n, eq⟩ := Nat.exists_eq_add_of_lt closing
  simp [Station.step, eq, Bell.ringAll, h.waits idle, idle.2.2]

theorem Attended.ringOne_calls (h : s.Attended) (idle : s.Idle) (leaving : 0 < s.leaving) :
    (s.step .ringOne).staffed.bell.called = [()] := by
  obtain ⟨n, eq⟩ := Nat.exists_eq_add_of_lt leaving
  simp [Station.step, eq, Bell.ringOne, h.waits idle, idle.2.2]

/-- Whenever the worker waits unheard there is no key for it, and no shutdown has rung. One that
closed the queue has yet to ring, and calls the worker with its next ring. -/
theorem idle_worker_missed_nothing (events : List Event) (idle : (play events).Idle) :
    (play events).staffed.work.queue = [] ∧ (play events).rung = 0 ∧
      ((play events).staffed.work.isShutDown = true ↔ 0 < (play events).ringing) ∧
      (0 < (play events).closing →
        ((play events).step .ringAll).staffed.bell.called = [()]) ∧
      (0 < (play events).leaving →
        ((play events).step .ringOne).staffed.bell.called = [()]) := by
  have attended := attended_play events
  have unrung : (play events).rung = 0 := by
    by_contra rung
    exact idle.unheard (attended.heard (Nat.pos_of_ne_zero rung))
  refine ⟨?_, unrung, ?_, attended.ringAll_calls idle, attended.ringOne_calls idle⟩
  · by_contra some
    exact idle.unheard (attended.queued some)
  · rw [attended.closed, unrung, Nat.add_zero]

theorem sample_worker_missed_nothing :
    let events : List Event := [.add "default/web", .look, .handBack, .look, .await, .resume,
      .look, .await, .close]
    (play events).Idle ∧ (play events).rung = 0 ∧ 0 < (play events).ringing ∧
      ((play events).step .ringAll).staffed.bell.called = [()] := by
  intro events
  have idle : (play events).Idle := ⟨by decide, by decide, by decide⟩
  obtain ⟨-, unrung, closed, called, -⟩ := idle_worker_missed_nothing events idle
  exact ⟨idle, unrung, closed.mp (by decide), called (by decide)⟩

/-- The flag of a shutdown is not heard: the worker waits unheard on a queue that is shut down. -/
theorem closing_worker_unheard :
    let events : List Event := [.look, .await, .close]
    (play events).Idle ∧ (play events).staffed.work.isShutDown = true ∧
      (play events).closing = 1 := by
  exact ⟨⟨by decide, by decide, by decide⟩, by decide, by decide⟩

/-- One kept ring does not do for two workers that were both about to wait. -/
example :
    let s := (({} : StaffedQueue Nat).add "default/a").add "default/b"
    (s.bell.await 0).await 1 = { waiting := [1], called := [0] } := by decide

/-- What there is to look for reaches a worker that has nothing to do within three moves. -/
theorem worker_takes_next (events : List Event)
    (free : (play events).post.isFree = true)
    (due : (play events).staffed.work.queue ≠ [] ∨ 0 < (play events).rung) :
    ((play events).run [.await, .resume, .look]).post =
      .after (play events).staffed.work.get.1 := by
  have attended := attended_play events
  exact looks_again attended.fits (due.elim attended.queued attended.heard) free

end Station
end Hotplug
