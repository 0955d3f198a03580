import FrameUI.Style.Color

/-!
# Shifted colours

A shift moves the three colour channels of a colour and leaves its alpha alone. A channel and the
shift are added in sixteen bits. That is their sum over the integers up to the largest number of
sixteen bits; past it the sum wraps around to a negative number, and the channel ends at zero where
it should end at 255. Main statement: `shifted_channels`.
-/

namespace FrameUI.Style.Rgba

/-- The sum of a channel and a shift wraps around at its upper end only. -/
theorem toInt_moved (delta : Int16) (channel : UInt8) :
    (Int16.ofNat channel.toNat + delta).toInt =
      if channel.toNat + delta.toInt ≤ 32767 then channel.toNat + delta.toInt
      else channel.toNat + delta.toInt - 65536 := by
  have hchannel := channel.toNat_lt
  have hlower := delta.le_toInt
  have hupper := delta.toInt_lt
  rw [Int16.toInt_add, Int16.toInt_ofNat_of_lt (by omega)]
  split
  · exact Int.bmod_eq_of_le (by omega) (by omega)
  · rw [← Int.sub_bmod_right]
    exact Int.bmod_eq_of_le (by omega) (by omega)

theorem toInt_moved_eq_iff (delta : Int16) (channel : UInt8) :
    (Int16.ofNat channel.toNat + delta).toInt = channel.toNat + delta.toInt ↔
      channel.toNat + delta.toInt ≤ 32767 := by
  rw [toInt_moved]
  split
  · rename_i hfits
    exact iff_of_true rfl hfits
  · rename_i hpast
    exact iff_of_false (by omega) hpast

theorem toNat_shiftChannel (delta : Int16) (channel : UInt8) :
    ((shiftChannel delta channel).toNat : Int) =
      max 0 (min 255 (Int16.ofNat channel.toNat + delta).toInt) := by
  have hzero : (0 : Int16).toInt = 0 := rfl
  have hmost : (255 : Int16).toInt = 255 := rfl
  simp only [shiftChannel, Int16.lt_iff_toInt_lt, hzero, hmost]
  generalize (Int16.ofNat channel.toNat + delta).toInt = moved
  split
  · simp
    omega
  · split
    · simp
      omega
    · rw [UInt8.toNat_ofNat_of_lt' (by simp; omega)]
      omega

/-- What a shift makes of a channel. -/
theorem toNat_shiftChannel_eq (delta : Int16) (channel : UInt8) :
    ((shiftChannel delta channel).toNat : Int) =
      if channel.toNat + delta.toInt ≤ 32767 then
        max 0 (min 255 (channel.toNat + delta.toInt))
      else 0 := by
  have hchannel := channel.toNat_lt
  have hupper := delta.toInt_lt
  rw [toNat_shiftChannel, toInt_moved]
  split
  · rfl
  · omega

/-- A shift holds every colour channel between 0 and 255 and keeps the alpha, as long as channel
and shift together fit into sixteen bits. Where they do not, and only there, their sum is not the
one over the integers, and the channel becomes zero. -/
theorem shifted_channels (c : Rgba) (delta : Int16) :
    (c.shifted delta).alpha = c.alpha ∧
    ∀ channel ∈ [red, green, blue],
      ((Int16.ofNat (channel c).toNat + delta).toInt = (channel c).toNat + delta.toInt ↔
        (channel c).toNat + delta.toInt ≤ 32767) ∧
      ((channel (c.shifted delta)).toNat : Int) =
        if (channel c).toNat + delta.toInt ≤ 32767 then
          max 0 (min 255 ((channel c).toNat + delta.toInt))
        else 0 := by
  refine ⟨rfl, ?_⟩
  simp only [List.forall_mem_cons]
  exact ⟨⟨toInt_moved_eq_iff _ _, toNat_shiftChannel_eq delta c.red⟩,
    ⟨toInt_moved_eq_iff _ _, toNat_shiftChannel_eq delta c.green⟩,
    ⟨toInt_moved_eq_iff _ _, toNat_shiftChannel_eq delta c.blue⟩, nofun⟩

/-- The largest shift takes the red of white to zero. -/
theorem exists_shifted_wrapped : ∃ (c : Rgba) (delta : Int16),
    ((c.shifted delta).red.toNat : Int) ≠ max 0 (min 255 (c.red.toNat + delta.toInt)) :=
  ⟨white, 32767, by decide⟩

end FrameUI.Style.Rgba
