import Tagged.Session.State

/-!
# What is stored is found

Variables and file trees are kept in lists of pairs, with one pair for each key. What was put
under a key is found there, and under every other key what was there before.
-/

namespace Tagged

theorem lookup_filter_of_ne {α β : Type} [BEq α] [LawfulBEq α] {key a : α} (h : key ≠ a)
    (pairs : List (α × β)) : (pairs.filter (·.1 != a)).lookup key = pairs.lookup key := by
  induction pairs with
  | nil => rfl
  | cons pair pairs ih =>
      obtain ⟨b, v⟩ := pair
      by_cases hb : b = a
      · have hkey : (key == b) = false := by simpa [hb] using h
        simp [hb, List.lookup_cons, ih, hb ▸ hkey]
      · simp [hb, List.lookup_cons, ih]

namespace Session

theorem get_set_self (s : Session) (name : String) (v : Value) : (s.set name v).get name = v := by
  simp [get, set]

theorem get_set_of_ne {name other : String} (h : other ≠ name) (s : Session) (v : Value) :
    (s.set name v).get other = s.get other := by
  have hkey : (other == name) = false := by simpa using h
  simp [get, set, List.lookup_cons, hkey, lookup_filter_of_ne h]

theorem set_set (s : Session) (name : String) (v w : Value) :
    (s.set name v).set name w = s.set name w := by
  simp [set]

end Session

namespace FileTree

theorem get?_put_self (t : FileTree) {loc : Location} (h : loc ≠ []) (entry : Entry) :
    (t.put loc entry).get? loc = some entry := by
  simp [get?, put, h]

theorem get?_put_of_ne (t : FileTree) {loc other : Location} (h : other ≠ loc) (entry : Entry) :
    (t.put loc entry).get? other = t.get? other := by
  have hkey : (other == loc) = false := by simpa using h
  simp [get?, put, List.lookup_cons, hkey, lookup_filter_of_ne h]

end FileTree

end Tagged
