import Mathlib.Data.List.DropRight

/-!
# What a history says now

A history is a list of events, the oldest first. Some events open an epoch, and some close the one
that is open. `current` is the epoch which is open in the end, from its opening on: an event that
would open an epoch inside of another one belongs to that. `latest` is the last value that the
events have given.
-/

namespace Epochs

variable {α β : Type*} {opens closes : α → Bool} {xs : List α} {x : α}

/-- The epoch that is open after a history: the event that opened it, and those since. -/
def current (opens closes : α → Bool) (xs : List α) : List α :=
  (xs.rtakeWhile fun x => !closes x).dropWhile fun x => !opens x

/-- The last of the values which the events have given, or the value from before. -/
def latest (value? : α → Option β) (before : β) (xs : List α) : β :=
  (xs.filterMap value?).getLast?.getD before

@[simp] theorem current_nil : current opens closes ([] : List α) = [] := rfl

/-- Nothing is open after an event that closes. -/
theorem current_concat_closes (h : closes x = true) : current opens closes (xs ++ [x]) = [] := by
  unfold current
  rw [List.rtakeWhile_concat, if_neg (by simp [h])]
  rfl

/-- Any other event goes to the open epoch; if there is none, it opens one or is of no epoch. -/
theorem current_concat (opens : α → Bool) (xs : List α) (h : closes x = false) :
    current opens closes (xs ++ [x]) =
      if current opens closes xs = [] then (if opens x then [x] else [])
      else current opens closes xs ++ [x] := by
  unfold current
  rw [List.rtakeWhile_concat, if_pos (by simp [h]), List.dropWhile_append]
  simp only [List.isEmpty_iff]
  congr 1
  cases hx : opens x with
  | false => simp [hx]
  | true => simp [hx]

/-- An epoch begins with an event that opens it. -/
theorem opens_of_current {rest : List α} (h : current opens closes xs = x :: rest) :
    opens x = true := by
  have hhead := List.head?_dropWhile_not (fun x => !opens x) (xs.rtakeWhile fun x => !closes x)
  rw [show (xs.rtakeWhile fun x => !closes x).dropWhile (fun x => !opens x) = x :: rest from h]
    at hhead
  simpa using hhead

@[simp] theorem latest_nil (value? : α → Option β) (before : β) : latest value? before [] = before :=
  rfl

theorem latest_concat (value? : α → Option β) (before : β) (xs : List α) (x : α) :
    latest value? before (xs ++ [x]) = (value? x).getD (latest value? before xs) := by
  unfold latest
  cases hx : value? x with
  | none => simp [hx]
  | some b => simp [hx]

end Epochs
