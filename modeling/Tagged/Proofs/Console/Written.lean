import Mathlib.Data.List.TakeWhile
import Tagged.Console.Output

/-!
# What is written

On a device that accepts everything, what was written is what the device has got together with
what is still in the buffer, in this order. A write appends the bytes that it answers for, a
write of all bytes appends them all, NULs included, and a flush appends nothing.
-/

namespace Tagged.Output

/-- All bytes that were written and not lost, whether they have reached the device or not. -/
def written (o : Output) : Bytes := (o.buffered ++ o.delivered).reverse.flatten

/-- The device accepts everything, and exactly these bytes were written from the first state of
the output to the second. -/
structure Appends (o : Output) (bytes : Bytes) (o' : Output) : Prop where
  device : o'.device = .accepting
  written : o'.written = o.written ++ bytes

namespace Appends

variable {o o' o'' : Output} {bytes more : Bytes}

theorem refl (h : o.device = .accepting) : o.Appends [] o :=
  ⟨h, (List.append_nil _).symm⟩

theorem trans (h : o.Appends bytes o') (h' : o'.Appends more o'') :
    o.Appends (bytes ++ more) o'' := by
  refine ⟨h'.device, ?_⟩
  calc
    o''.written = o'.written ++ more := h'.written
    _ = o.written ++ bytes ++ more := by rw [h.written]
    _ = o.written ++ (bytes ++ more) := List.append_assoc _ _ _

end Appends

theorem put_appends {o : Output} (h : o.device = .accepting) (bytes : Bytes) :
    (o.put bytes).1 = .ok () ∧ o.Appends bytes (o.put bytes).2 := by
  rw [put, h]
  exact ⟨rfl, rfl, by simp [written]⟩

theorem flush_appends {o : Output} (h : o.device = .accepting) :
    o.flush.1 = .ok () ∧ o.Appends [] o.flush.2 ∧
      o.flush.2.bytes = o.written ∧ o.flush.2.buffered = [] := by
  have hflush : o.flush =
      (.ok (), { o with delivered := o.buffered ++ o.delivered, buffered := [] }) := by
    unfold flush
    rw [h]
  rw [hflush]
  exact ⟨rfl, ⟨h, by simp [written]⟩, rfl, rfl⟩

theorem isPrefix_run (bytes : Bytes) : run bytes <+: bytes := by
  cases bytes with
  | nil => exact List.nil_prefix
  | cons b rest =>
      rw [run]
      split
      next hb =>
        rw [beq_iff_eq.1 hb]
        exact List.prefix_append [0] rest
      next => exact (List.take_prefix _ _).trans (List.takeWhile_prefix _)

theorem write_appends {o : Output} (h : o.device = .accepting) (bytes : Bytes) :
    ∃ n, (o.write bytes).1 = .ok n ∧ o.Appends (bytes.take n) (o.write bytes).2 := by
  unfold write
  split
  next hempty =>
    rw [List.isEmpty_iff] at hempty
    exact ⟨0, rfl, by simpa using Appends.refl h⟩
  next =>
    obtain ⟨hok, happends⟩ := put_appends h (run bytes)
    refine ⟨(run bytes).length, by simp [hok, Except.map], ?_⟩
    rw [← List.prefix_iff_eq_take.1 (isPrefix_run bytes)]
    exact happends

/-- Each write takes some of the bytes and leaves the others to the next one. -/
theorem writeAll_appends {o : Output} (h : o.device = .accepting) (bytes : Bytes) :
    (o.writeAll bytes).1 = .ok () ∧ o.Appends bytes (o.writeAll bytes).2 := by
  fun_induction writeAll o bytes with
  | case1 o => exact ⟨rfl, .refl h⟩
  | case2 o bytes hne failure o' hwrite =>
      obtain ⟨n, hok, -⟩ := write_appends h bytes
      rw [hwrite] at hok
      cases hok
  | case3 o bytes hne n o' hwrite hlt ih =>
      obtain ⟨m, hok, happends⟩ := write_appends h bytes
      rw [hwrite] at hok happends
      cases hok
      obtain ⟨hrest, hmore⟩ := ih happends.device
      have hall := happends.trans hmore
      rw [List.take_append_drop] at hall
      exact ⟨hrest, hall⟩

end Tagged.Output
