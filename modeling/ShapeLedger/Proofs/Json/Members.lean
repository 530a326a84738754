/-
Members that are put into an object one after another are the merged members of the grammar: a key that
is there already keeps its place and takes the new value, and any other key goes to the end.
-/
import ShapeLedger.Proofs.Json.Grammar
import Mathlib.Data.List.Basic
import Mathlib.Data.List.Induction

namespace ShapeLedger.Json

namespace Grammar

variable {key k : String} {v : Value} {ms : Members}

/-! ## Lookup -/

theorem get?_cons (key k : String) (v : Value) (ms : Members) :
    Members.get? key ((k, v) :: ms) = if k = key then some v else Members.get? key ms := by
  unfold Members.get?
  by_cases h : k = key <;> simp [h]

theorem get?_isSome_iff : (Members.get? key ms).isSome = true ↔ key ∈ ms.map (·.1) := by
  simp [Members.get?]

theorem last?_isSome_iff : (last? key ms).isSome = true ↔ key ∈ ms.map (·.1) := by
  rw [last?, get?_isSome_iff, List.map_reverse, List.mem_reverse]

theorem last?_append (key k : String) (v : Value) (ms : Members) :
    last? key (ms ++ [(k, v)]) = if k = key then some v else last? key ms := by
  rw [last?, List.reverse_append]
  exact get?_cons key k v ms.reverse

/-! ## Members of given keys -/

/-- Members with these keys, and the values that `f` gives them. -/
def valued (f : String → Option Value) (keys : List String) : Members :=
  keys.filterMap (fun key => (f key).map (key, ·))

section
variable {f : String → Option Value} {keys : List String}

theorem valued_congr {g : String → Option Value} (h : ∀ key ∈ keys, f key = g key) :
    valued f keys = valued g keys :=
  List.filterMap_congr fun key hkey => by rw [h key hkey]

theorem map_fst_valued (hs : ∀ key ∈ keys, (f key).isSome = true) : (valued f keys).map (·.1) = keys := by
  induction keys with
  | nil => rfl
  | cons key rest ih =>
    rw [List.forall_mem_cons] at hs
    obtain ⟨w, hw⟩ := Option.isSome_iff_exists.1 hs.1
    simpa [valued, hw] using ih hs.2

theorem get?_valued (hs : ∀ key ∈ keys, (f key).isSome = true) (hk : k ∈ keys) :
    Members.get? k (valued f keys) = f k := by
  induction keys with
  | nil => cases hk
  | cons key rest ih =>
    rw [List.forall_mem_cons] at hs
    obtain ⟨w, hw⟩ := Option.isSome_iff_exists.1 hs.1
    have hcons : valued f (key :: rest) = (key, w) :: valued f rest := by simp [valued, hw]
    rw [hcons, get?_cons]
    split
    · next he => rw [← he, hw]
    · next he => exact ih hs.2 ((List.mem_cons.1 hk).resolve_left (Ne.symm he))

theorem put_absent (h : k ∉ ms.map (·.1)) : ms.put k v = ms ++ [(k, v)] := by
  induction ms with
  | nil => rfl
  | cons m rest ih =>
    rw [List.map_cons, List.mem_cons, not_or] at h
    rw [Members.put, if_neg (Ne.symm h.1), ih h.2, List.cons_append]

theorem put_present (hn : keys.Nodup) (hs : ∀ key ∈ keys, (f key).isSome = true) (hk : k ∈ keys) :
    (valued f keys).put k v = valued (fun key => if k = key then some v else f key) keys := by
  induction keys with
  | nil => cases hk
  | cons key rest ih =>
    rw [List.nodup_cons] at hn
    rw [List.forall_mem_cons] at hs
    obtain ⟨w, hw⟩ := Option.isSome_iff_exists.1 hs.1
    have hcons : valued f (key :: rest) = (key, w) :: valued f rest := by simp [valued, hw]
    rw [hcons, Members.put]
    by_cases he : key = k
    · -- the key does not come again, so nothing else changes
      have hrest : valued f rest = valued (fun key => if k = key then some v else f key) rest :=
        valued_congr fun other hother => by
          rw [if_neg]
          rintro rfl
          exact hn.1 (he ▸ hother)
      rw [if_pos he, hrest]
      simp [valued, he]
    · rw [if_neg he, ih hn.2 hs.2 ((List.mem_cons.1 hk).resolve_left (Ne.symm he))]
      simp [valued, hw, Ne.symm he]

end

/-! ## Merging -/

theorem nodup_eraseDups (keys : List String) : keys.eraseDups.Nodup := by
  induction hlen : keys.length using Nat.strongRecOn generalizing keys with
  | ind n ih =>
    cases keys with
    | nil => exact List.nodup_nil
    | cons key rest =>
      have hle := List.length_filter_le (fun b => !b == key) rest
      rw [List.eraseDups_cons, List.nodup_cons]
      refine ⟨?_, ih _ (by rw [← hlen, List.length_cons]; omega) _ rfl⟩
      simp [List.mem_eraseDups]

theorem last?_of_mem_keys (ms : Members) :
    ∀ key ∈ (ms.map (·.1)).eraseDups, (last? key ms).isSome = true :=
  fun _ hkey => last?_isSome_iff.2 (List.mem_eraseDups.1 hkey)

theorem map_fst_merged (ms : Members) : (merged ms).map (·.1) = (ms.map (·.1)).eraseDups :=
  map_fst_valued (last?_of_mem_keys ms)

theorem merged_append (ms : Members) (k : String) (v : Value) :
    merged (ms ++ [(k, v)]) = (merged ms).put k v := by
  have hmerged : merged (ms ++ [(k, v)]) = valued (fun key => if k = key then some v else last? key ms)
      ((ms.map (·.1)).eraseDups ++ ([k].removeAll (ms.map (·.1))).eraseDups) := by
    rw [merged, List.map_append, List.eraseDups_append]
    exact valued_congr fun key _ => last?_append key k v ms
  by_cases hk : k ∈ ms.map (·.1)
  · have hnew : [k].removeAll (ms.map (·.1)) = [] := by simp [List.removeAll, hk]
    rw [hmerged, hnew, List.eraseDups_nil, List.append_nil]
    exact (put_present (nodup_eraseDups _) (last?_of_mem_keys ms) (List.mem_eraseDups.2 hk)).symm
  · have hnew : [k].removeAll (ms.map (·.1)) = [k] := by simp [List.removeAll, hk]
    have hold : valued (fun key => if k = key then some v else last? key ms) (ms.map (·.1)).eraseDups =
        merged ms :=
      valued_congr fun key hkey => by
        rw [if_neg]
        rintro rfl
        exact hk (List.mem_eraseDups.1 hkey)
    rw [put_absent (by rwa [map_fst_merged, List.mem_eraseDups]), ← hold, hmerged, hnew]
    simp [valued, List.eraseDups_cons]

/-- Members put into an object one after another. -/
def putAll (done written : Members) : Members := written.foldl (fun done m => done.put m.1 m.2) done

theorem putAll_append (done ms : Members) (m : String × Value) :
    putAll done (ms ++ [m]) = (putAll done ms).put m.1 m.2 := List.foldl_append

theorem putAll_eq_merged (ms : Members) : putAll [] ms = merged ms := by
  induction ms using List.reverseRecOn with
  | nil => rfl
  | append_singleton ms m ih => rw [putAll_append, ih, merged_append]

/-- A key is found among the merged members with the value of its last member among those written. -/
theorem get?_merged (key : String) (ms : Members) : Members.get? key (merged ms) = last? key ms := by
  by_cases h : key ∈ ms.map (·.1)
  · exact get?_valued (last?_of_mem_keys ms) (List.mem_eraseDups.2 h)
  · have hlast : last? key ms = none := by rwa [← Option.not_isSome_iff_eq_none, last?_isSome_iff]
    rwa [hlast, ← Option.not_isSome_iff_eq_none, get?_isSome_iff, map_fst_merged, List.mem_eraseDups]

end Grammar

end ShapeLedger.Json
