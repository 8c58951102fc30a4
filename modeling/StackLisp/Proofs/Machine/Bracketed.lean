import StackLisp.Machine.World

/-!
Calls and returns as brackets. A word of events is read with the names of the calls that are still
open, the innermost first: a return must carry the first of them and closes it.
-/

namespace StackLisp

/-- Words in which every call has its return behind what happens inside of it. -/
inductive Bracketed : List Event → Prop
  | nil : Bracketed []
  | call {name : String} {arguments : List Value} {result : Value} {inner later : List Event} :
    Bracketed inner → Bracketed later →
    Bracketed (.called name arguments :: inner ++ .returned name result :: later)

namespace Event

/-- The names of the calls that are open behind some events, if every return fits. -/
def pending : List String → List Event → Option (List String)
  | names, [] => some names
  | names, .called name _ :: later => pending (name :: names) later
  | [], .returned _ _ :: _ => none
  | expected :: names, .returned name _ :: later =>
    if name = expected then pending names later else none

theorem pending_append (names : List String) (earlier later : List Event) :
    pending names (earlier ++ later) = (pending names earlier).bind fun between =>
      pending between later := by
  induction earlier generalizing names with
  | nil => rfl
  | cons event rest ih =>
      cases event with
      | called name arguments => exact ih _
      | returned name result =>
          cases names with
          | nil => rfl
          | cons expected names =>
              simp only [List.cons_append, pending]
              split
              · exact ih _
              · rfl

theorem pending_outer {names left : List String} {events : List Event} (outer : List String)
    (fits : pending names events = some left) :
    pending (names ++ outer) events = some (left ++ outer) := by
  induction events generalizing names with
  | nil =>
      cases fits
      rfl
  | cons event rest ih =>
      cases event with
      | called name arguments =>
          have inner : pending (name :: names) rest = some left := fits
          exact ih inner
      | returned name result =>
          cases names with
          | nil => cases fits
          | cons expected names =>
              simp only [List.cons_append, pending] at fits ⊢
              split at fits
              next same =>
                rw [if_pos same]
                exact ih fits
              next => cases fits

theorem pending_whole {inner : List Event} (closed : pending [] inner = some [])
    (names : List String) (name : String) (arguments : List Value) (result : Value)
    (later : List Event) :
    pending names (.called name arguments :: inner ++ .returned name result :: later) =
      pending names later := by
  have own : pending (name :: names) inner = some (name :: names) :=
    pending_outer (name :: names) closed
  rw [List.cons_append, pending, pending_append, own, Option.bind_some, pending, if_pos rfl]

theorem pending_split (events : List Event) {name : String} {names : List String}
    (closed : pending (name :: names) events = some []) :
    ∃ inner result later, events = inner ++ .returned name result :: later ∧
      pending [] inner = some [] ∧ pending names later = some [] := by
  -- The events are cut at the return of a call that is opened first, and again behind that.
  induction size : events.length using Nat.strongRecOn generalizing events name names with
  | ind size ih =>
      subst size
      cases events with
      | nil => cases closed
      | cons event rest =>
          cases event with
          | returned other result =>
              rw [pending] at closed
              split at closed
              next same =>
                subst same
                exact ⟨[], result, rest, rfl, rfl, closed⟩
              next => cases closed
          | called other arguments =>
              obtain ⟨first, value, between, rfl, firstClosed, behind⟩ :=
                ih rest.length (Nat.lt_succ_self _) rest closed rfl
              have shorter : between.length <
                  (.called other arguments :: (first ++ .returned other value :: between)).length := by
                simp only [List.length_append, List.length_cons]
                omega
              obtain ⟨second, result, later, rfl, secondClosed, laterClosed⟩ :=
                ih between.length shorter between behind rfl
              refine ⟨.called other arguments :: first ++ .returned other value :: second, result,
                later, by simp, ?_, laterClosed⟩
              rw [pending_whole firstClosed]
              exact secondClosed

theorem bracketed_of_pending (events : List Event) (closed : pending [] events = some []) :
    Bracketed events := by
  induction size : events.length using Nat.strongRecOn generalizing events with
  | ind size ih =>
      subst size
      cases events with
      | nil => exact .nil
      | cons event rest =>
          cases event with
          | returned name result => cases closed
          | called name arguments =>
              obtain ⟨inner, result, later, rfl, innerClosed, laterClosed⟩ :=
                pending_split rest closed
              refine .call (ih inner.length ?_ inner innerClosed rfl)
                (ih later.length ?_ later laterClosed rfl)
              all_goals
                simp only [List.length_append, List.length_cons]
                omega

theorem bracketed_of_fits {events : List Event} {names : List String}
    (fits : pending [] events = some names) : ∃ rest, Bracketed (events ++ rest) := by
  have returns (names : List String) :
      pending names (names.map fun name => .returned name .nil) = some [] := by
    induction names with
    | nil => rfl
    | cons name names ih => simpa [pending] using ih
  refine ⟨names.map fun name => .returned name .nil, bracketed_of_pending _ ?_⟩
  rw [pending_append, fits]
  exact returns names

end Event

def World.events (world : World) : List Event := world.journal.events.toList.map Prod.fst

def World.Opens (world after : World) (names : List String) : Prop :=
  ∃ since, after.events = world.events ++ since ∧ Event.pending [] since = some names

def World.Calls (world after : World) (value : Value) : Prop :=
  ∃ name arguments inner,
    after.events = world.events ++ (.called name arguments :: inner ++ [.returned name value]) ∧
      Event.pending [] inner = some []

namespace World

variable {world between after : World} {names more : List String}

theorem events_of_journal (same : after.journal.events = world.journal.events) :
    after.events = world.events := by rw [events, events, same]

theorem opens_of_eq (same : after.events = world.events) : world.Opens after [] :=
  ⟨[], by rw [same, List.append_nil], rfl⟩

theorem Opens.trans (first : world.Opens between names) (second : between.Opens after more) :
    world.Opens after (more ++ names) := by
  obtain ⟨earlier, events, fits⟩ := first
  obtain ⟨later, laterEvents, laterFits⟩ := second
  refine ⟨earlier ++ later, by rw [laterEvents, events, List.append_assoc], ?_⟩
  rw [Event.pending_append, fits]
  exact Event.pending_outer names laterFits

theorem Opens.called (opens : world.Opens between names) {name : String} {arguments : List Value}
    (events : after.events = between.events ++ [.called name arguments]) :
    world.Opens after (name :: names) :=
  opens.trans ⟨[.called name arguments], events, rfl⟩

theorem Opens.returned {name : String} (opens : world.Opens between (name :: names)) {result : Value}
    (events : after.events = between.events ++ [.returned name result]) :
    world.Opens after names := by
  obtain ⟨since, earlier, fits⟩ := opens
  refine ⟨since ++ [.returned name result], by rw [events, earlier, List.append_assoc], ?_⟩
  rw [Event.pending_append, fits]
  simp [Event.pending]

theorem Calls.opens {value : Value} (calls : world.Calls after value) : world.Opens after [] := by
  obtain ⟨name, arguments, inner, events, closed⟩ := calls
  exact ⟨_, events, Event.pending_whole closed [] name arguments value []⟩

end World

end StackLisp
