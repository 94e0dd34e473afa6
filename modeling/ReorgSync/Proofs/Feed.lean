import Mathlib.Data.List.Induction
import ReorgSync.Feed

namespace ReorgSync

/-! What a reader of a feed finds. -/

namespace Feed

variable {feed : Feed α} {items : List α} {item : α} {position : Nat}

def publishAll (feed : Feed α) (items : List α) : Feed α :=
  items.foldl publish feed

theorem publishAll_append (feed : Feed α) (front back : List α) :
    feed.publishAll (front ++ back) = (feed.publishAll front).publishAll back :=
  List.foldl_append

theorem publishAll_concat (feed : Feed α) (items : List α) (item : α) :
    feed.publishAll (items ++ [item]) = (feed.publishAll items).publish item :=
  publishAll_append feed items [item]

theorem published_publishAll (feed : Feed α) (items : List α) :
    (feed.publishAll items).published = feed.published + items.length := by
  induction items using List.reverseRecOn with
  | nil => rfl
  | append_singleton items item induction =>
      rw [publishAll_concat, published_publish, induction, List.length_append,
        List.length_singleton, Nat.add_assoc]

/-- The newest items of a feed are those that were published last. -/
theorem getElem?_recent_publishAll {index : Nat} (recent : index < items.length)
    (found : (feed.publishAll items).recent[index]? = some item) :
    items.reverse[index]? = some item := by
  induction items using List.reverseRecOn generalizing index with
  | nil => simp at recent
  | append_singleton items newest induction =>
      rw [publishAll_concat] at found
      rw [List.reverse_concat]
      have foundIn : (newest :: (feed.publishAll items).recent)[index]? = some item := by
        rw [publish] at found
        cases capacity : (feed.publishAll items).capacity with
        | none =>
            rw [capacity] at found
            exact found
        | some kept =>
            simp only [capacity, List.getElem?_take] at found
            split at found
            · exact found
            · contradiction
      cases index with
      | zero => exact foundIn
      | succ index =>
          rw [List.length_append, List.length_singleton] at recent
          exact induction (by omega) foundIn

/-- An item that is found at a position behind the items so far is one of those that
were published since. -/
theorem getElem?_of_find (since : feed.published ≤ position)
    (found : (feed.publishAll items).find position = .item item) :
    items[position - feed.published]? = some item := by
  have published := published_publishAll feed items
  have isRecent : (feed.publishAll items).recent[
      (feed.publishAll items).lag position - 1]? = some item ∧
        (feed.publishAll items).lag position ≠ 0 := by
    rw [find] at found
    grind
  rcases isRecent with ⟨isRecent, unread⟩
  rw [lag, published] at isRecent unread
  have reversed := getElem?_recent_publishAll (by omega) isRecent
  rw [List.getElem?_reverse (by omega)] at reversed
  have same : items.length - 1 - (feed.published + items.length - position - 1) =
      position - feed.published := by
    omega
  rw [same] at reversed
  exact reversed

end Feed

end ReorgSync
