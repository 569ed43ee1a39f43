import WordMachine.Device.Exchange

namespace WordMachine

-- The laws of a store. Channels are kept under their names, so a change has to leave the name as it is.
class LawfulChannelStore (σ : Type) (ι α : outParam Type) [ChannelStore σ ι α] : Prop where
  channel_update_self (s : σ) {i : ι} {f : Channel α → Channel α}
    (hf : ∀ c, c.name = (ChannelStore.channel s i).name → (f c).name = c.name) :
    ChannelStore.channel (ChannelStore.update s i f) i = f (ChannelStore.channel s i)
  channel_update_of_ne (s : σ) {i j : ι} (hj : j ≠ i) {f : Channel α → Channel α}
    (hf : ∀ c, c.name = (ChannelStore.channel s i).name → (f c).name = c.name) :
    ChannelStore.channel (ChannelStore.update s i f) j = ChannelStore.channel s j
  channel_setAll (s : σ) (events : List EventId) (i : ι) :
    ChannelStore.channel (ChannelStore.setAll s events) i = ChannelStore.channel s i
  isSet_update (s : σ) (i : ι) (f : Channel α → Channel α) (e : EventId) :
    ChannelStore.isSet (ChannelStore.update s i f) e = ChannelStore.isSet s e
  isSet_setAll (s : σ) (events : List EventId) (e : EventId) :
    ChannelStore.isSet (ChannelStore.setAll s events) e = true ↔ e ∈ events ∨ ChannelStore.isSet s e = true

theorem ChannelStore.channel_update {σ ι α : Type} [ChannelStore σ ι α] [LawfulChannelStore σ ι α]
    [DecidableEq ι] (s : σ) {i : ι} {f : Channel α → Channel α}
    (hf : ∀ c, c.name = (channel s i).name → (f c).name = c.name) (j : ι) :
    channel (update s i f) j = if j = i then f (channel s i) else channel s j := by
  split
  · rename_i hj
    rw [hj, LawfulChannelStore.channel_update_self s hf]
  · rename_i hj
    exact LawfulChannelStore.channel_update_of_ne s hj hf

namespace Exchange

theorem name_channel (x : Exchange) (name : String) : (x.channel name).name = name := by
  rw [channel, find?]
  cases h : x.channels.find? fun c => c.name == name with
  | none => rfl
  | some c => simpa using List.find?_some h

-- Naming a channel brings in no channel but that one.
theorem find?_mention (x : Exchange) (name other : String) :
    (x.mention name).find? other = if other = name then some (x.channel name) else x.find? other := by
  cases h : x.find? name with
  | some c =>
      have hmention : x.mention name = x := by simp only [mention, h]
      rw [hmention, channel, h]
      split
      · rename_i hother
        rw [hother, h, Option.getD_some]
      · rfl
  | none =>
      have hmention : (x.mention name).find? other =
          (x.find? other).or ([({ name := name } : Channel Item)].find? fun c => c.name == other) := by
        simp only [mention, h]
        exact List.find?_append
      rw [hmention, channel, h]
      split
      · rename_i hother
        simp [hother, h]
      · rename_i hother
        simp [Ne.symm hother]

theorem find?_update (x : Exchange) {name : String} {f : Channel Item → Channel Item}
    (hf : ∀ c, c.name = (x.channel name).name → (f c).name = c.name) (other : String) :
    (x.update name f).find? other =
      if other = name then some (f (x.channel name)) else x.find? other := by
  have hname : ∀ c : Channel Item, (if c.name == name then f c else c).name = c.name := by
    intro c
    split
    · rename_i hc
      exact hf c ((beq_iff_eq.mp hc).trans (x.name_channel name).symm)
    · rfl
  have hfind : (x.update name f).find? other =
      ((x.mention name).find? other).map fun c => if c.name == name then f c else c := by
    rw [update, find?, List.find?_map, find?]
    congr 2
    funext c
    rw [Function.comp_apply, hname]
  rw [hfind, find?_mention]
  split
  · rw [Option.map_some, name_channel, beq_self_eq_true, if_pos rfl]
  · rename_i hother
    cases h : x.find? other with
    | none => rfl
    | some c =>
        have hc : c.name = other := by simpa using List.find?_some h
        rw [Option.map_some, if_neg (by simpa [hc] using hother)]

instance : LawfulChannelStore Exchange String Item where
  channel_update_self x {name f} hf := by
    change ((x.update name f).find? name).getD _ = f (x.channel name)
    rw [find?_update x hf, if_pos rfl, Option.getD_some]
  channel_update_of_ne x {name other} hother {f} hf := by
    change ((x.update name f).find? other).getD _ = x.channel other
    rw [find?_update x hf, if_neg hother, channel]
  channel_setAll _ _ _ := rfl
  isSet_update x name f e := by
    change (x.update name f).events.contains e = x.events.contains e
    rw [update, mention]
    split <;> rfl
  isSet_setAll x events e := by
    change (events ++ x.events).contains e = true ↔ e ∈ events ∨ x.events.contains e = true
    rw [List.contains_iff_mem, List.contains_iff_mem, List.mem_append]

end Exchange

end WordMachine
