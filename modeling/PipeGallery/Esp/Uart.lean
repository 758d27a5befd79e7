import Mathlib.Data.List.Infix
import PipeGallery.Report.Buffer

set_option autoImplicit false

/-!
# UART4 — the receive buffer

`uart4_recived_data` of `uartApp.c`: `uart4_thread_entry` appends a byte while there is room,
`uart4_buffer_clear` is a `memset` and then an index reset, and the cloud thread searches the C
string in it.

* `Uart4`, `receive`, `clearData`, `clearIndex`, `text`, `strstr`;
* `stored`, `stored_receive`, `stored_receive_take`: the bytes in front of the index;
* `index_receive_le`: the index stays below 256;
* **`prefix_text`**, **`text_prefix_stored`**: what the C string shows of them.
-/

namespace PipeGallery.Esp

open Report (Mem cString)

/-- `uart4_recived_data` and `uart4_recived_data_index`. -/
structure Uart4 where
  data : Mem := fun _ => '\x00'
  index : ℕ := 0

/-- `UART4_RECIVED_DATA_SIZE`. -/
def recivedDataSize : ℕ := 256

/-- `strstr(hay, needle) != RT_NULL`. -/
def strstr (hay needle : List Char) : Bool := decide (needle <:+: hay)

namespace Uart4

/-- A byte in `uart4_thread_entry`. -/
def receive (u : Uart4) (c : Char) : Uart4 :=
  if u.index < recivedDataSize - 1 then ⟨Function.update u.data u.index c, u.index + 1⟩ else u

/-- The `memset` of `uart4_buffer_clear`. -/
def clearData (u : Uart4) : Uart4 := { u with data := fun _ => '\x00' }

/-- The index reset of `uart4_buffer_clear`. -/
def clearIndex (u : Uart4) : Uart4 := { u with index := 0 }

/-- The C string in the buffer. -/
def text (u : Uart4) : List Char := cString u.data 0 recivedDataSize

/-- The bytes in front of the index. -/
def stored (u : Uart4) : List Char := (List.range u.index).map u.data

theorem length_stored (u : Uart4) : u.stored.length = u.index := by
  rw [stored, List.length_map, List.length_range]

theorem stored_clearIndex (u : Uart4) : u.clearIndex.stored = [] := rfl

theorem receive_of_lt {u : Uart4} (h : u.index < 255) (c : Char) :
    u.receive c = ⟨Function.update u.data u.index c, u.index + 1⟩ := if_pos h

theorem receive_of_le {u : Uart4} (h : 255 ≤ u.index) (c : Char) : u.receive c = u :=
  if_neg (Nat.not_lt.mpr h)

/-- A byte that fits is appended. -/
theorem stored_receive {u : Uart4} (h : u.index < 255) (c : Char) :
    (u.receive c).stored = u.stored ++ [c] := by
  rw [receive_of_lt h, stored, stored, List.range_succ, List.map_append, List.map_singleton]
  dsimp only
  rw [Function.update_self]
  refine congrArg (· ++ [c]) (List.map_congr_left fun i hi => ?_)
  have := List.mem_range.mp hi
  exact Function.update_of_ne (by omega) _ _

/-- A buffer that holds the first 255 bytes of a stream goes on to do so. -/
theorem stored_receive_take {u : Uart4} {a : List Char} (h : u.stored = a.take 255) (c : Char) :
    (u.receive c).stored = (a ++ [c]).take 255 := by
  have hlen : u.index = min 255 a.length := by rw [← length_stored, h, List.length_take]
  by_cases hi : u.index < 255
  · rw [stored_receive hi, h, List.take_of_length_le (by omega),
      List.take_of_length_le (by rw [List.length_append, List.length_singleton]; omega)]
  · rw [receive_of_le (Nat.not_lt.mp hi), h, List.take_append_of_le_length (by omega)]

/-- Stored bytes stay. -/
theorem stored_prefix_receive (u : Uart4) (c : Char) : u.stored <+: (u.receive c).stored := by
  by_cases h : u.index < 255
  · rw [stored_receive h]
    exact List.prefix_append _ _
  · rw [receive_of_le (Nat.not_lt.mp h)]

theorem index_receive_le {u : Uart4} (h : u.index ≤ 255) (c : Char) : (u.receive c).index ≤ 255 := by
  by_cases hi : u.index < 255
  · rw [receive_of_lt hi]
    exact hi
  · rw [receive_of_le (Nat.not_lt.mp hi)]
    exact h

/-- The cells behind the index keep their contents. -/
theorem data_receive {u : Uart4} (c : Char) {i : ℕ} (h : (u.receive c).index ≤ i) :
    (u.receive c).data i = u.data i := by
  by_cases hi : u.index < 255
  · rw [receive_of_lt hi] at h ⊢
    exact Function.update_of_ne (Nat.ne_of_gt h) _ _
  · rw [receive_of_le (Nat.not_lt.mp hi)]

theorem text_eq (u : Uart4) : u.text =
    ((List.range recivedDataSize).map u.data).takeWhile fun c => decide (c ≠ '\x00') := by
  simp only [text, cString, Nat.zero_add]

theorem cells_eq {u : Uart4} (h : u.index ≤ recivedDataSize) :
    (List.range recivedDataSize).map u.data = u.stored ++
      (List.range (recivedDataSize - u.index)).map fun i => u.data (u.index + i) := by
  obtain ⟨k, hk⟩ := Nat.exists_eq_add_of_le h
  rw [hk, List.range_add, List.map_append, List.map_map, Nat.add_sub_cancel_left]
  rfl

/-- **Stored bytes are visible** up to the first NUL. -/
theorem prefix_text {u : Uart4} (h : u.index ≤ recivedDataSize) {l : List Char} (hl : l <+: u.stored)
    (h0 : '\x00' ∉ l) : l <+: u.text := by
  obtain ⟨r, hr⟩ := hl
  rw [text_eq, cells_eq h, ← hr, List.append_assoc, List.takeWhile_append_of_pos]
  · exact List.prefix_append _ _
  · intro c hc
    exact decide_eq_true fun e => h0 (e ▸ hc)

/-- **Nothing else is visible** when the cells behind the index are clear. -/
theorem text_prefix_stored {u : Uart4} (h : u.index < recivedDataSize)
    (h0 : ∀ i, u.index ≤ i → u.data i = '\x00') : u.text <+: u.stored := by
  obtain ⟨k, hk⟩ : ∃ k, recivedDataSize - u.index = k + 1 := ⟨recivedDataSize - u.index - 1, by omega⟩
  rw [text_eq, cells_eq h.le, hk, List.range_succ_eq_map, List.map_cons, h0 _ (by omega)]
  rw [List.takeWhile_append]
  split_ifs
  · simp
  · exact List.takeWhile_prefix _

end Uart4

end PipeGallery.Esp
