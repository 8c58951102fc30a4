import Mathlib.Data.List.Basic
import StackLisp.OrderedMap

/-!
An ordered map holds what a list of entries does. The row of keys and the buckets are changed one by
one, but in step: the row is that of the entries' keys, and a bucket holds the entries whose keys
have its code, in their order. Nothing is asked of the hash function but that it does not tell apart
what `==` does not.
-/

namespace StackLisp.OrderedMap

section Place

variable {K V : Type} {same : K → K → Bool} {key : K} {value : V} {entries : List (K × V)}

theorem place_keys :
    (place same key value entries).map Prod.fst =
      if entries.any fun entry => same entry.1 key then entries.map Prod.fst
      else entries.map Prod.fst ++ [key] := by
  induction entries with
  | nil => rfl
  | cons entry later ih =>
      obtain ⟨first, held⟩ := entry
      by_cases met : same first key
      · simp [place, met]
      · simp only [place, met, Bool.false_eq_true, ↓reduceIte, List.map_cons, ih, List.any_cons,
          Bool.false_or]
        split <;> rfl

theorem place_filter (part : K → Bool) (respects : ∀ other, same other key → part other = part key) :
    (place same key value entries).filter (fun entry => part entry.1) =
      if part key then place same key value (entries.filter fun entry => part entry.1)
      else entries.filter fun entry => part entry.1 := by
  induction entries with
  | nil => by_cases inside : part key <;> simp [place, inside]
  | cons entry later ih =>
      obtain ⟨first, held⟩ := entry
      by_cases met : same first key
      · by_cases inside : part key <;> simp [place, met, respects first met, inside]
      · by_cases inside : part key <;> by_cases first : part first <;>
          simp_all [place]

theorem place_map {L : Type} {same' : L → L → Bool} (name : K → L)
    (agree : ∀ other, same' (name other) (name key) = same other key) :
    (place same key value entries).map (fun entry => (name entry.1, entry.2)) =
      place same' (name key) value (entries.map fun entry => (name entry.1, entry.2)) := by
  induction entries with
  | nil => rfl
  | cons entry later ih =>
      obtain ⟨first, held⟩ := entry
      by_cases met : same first key <;> simp [place, agree, met, ih]

end Place

theorem bucket_insert {K V : Type} (order : Array K)
    (buckets : Std.HashMap UInt64 (List (K × V))) (code : UInt64) (changed : List (K × V))
    (other : UInt64) :
    (⟨order, buckets.insert code changed⟩ : OrderedMap K V).bucket other =
      if code == other then changed else buckets.getD other [] := by
  simp only [bucket, Std.HashMap.getD_insert]

variable {K V : Type} [BEq K] [Hashable K]

def Apart (keys : List K) : Prop := keys.Pairwise fun key other => (key == other) = false

structure Holds (map : OrderedMap K V) (entries : List (K × V)) : Prop where
  keys : map.keys = entries.map Prod.fst
  buckets : ∀ code, map.bucket code = entries.filter fun entry => hash entry.1 == code
  apart : Apart (entries.map Prod.fst)

theorem holds_empty : Holds (empty : OrderedMap K V) [] :=
  ⟨rfl, fun code => by simp [empty, bucket], .nil⟩

variable {map : OrderedMap K V} {entries : List (K × V)}

theorem Holds.size (holds : Holds map entries) : map.size = entries.length := by
  simpa [OrderedMap.keys, OrderedMap.size] using congrArg List.length holds.keys

variable [LawfulHashable K]

theorem Holds.get? (holds : Holds map entries) (key : K) :
    map.get? key = (entries.find? fun entry => entry.1 == key).map Prod.snd := by
  -- The code of a key tells no two apart that are equal, so no entry is missed in other buckets.
  have sifted (entry : K × V) :
      decide ((hash entry.1 == hash key) = true ∧ (entry.1 == key) = true) =
        (entry.1 == key) := by
    by_cases met : entry.1 == key
    · simp [hash_eq met]
    · simp [met]
  simp only [OrderedMap.get?, holds.buckets, List.find?_filter, sifted]

omit [LawfulHashable K] in
theorem contains_eq (map : OrderedMap K V) (key : K) : map.contains key = (map.get? key).isSome := by
  simp [OrderedMap.contains, OrderedMap.get?, Option.isSome_map, List.isSome_find?]

theorem Holds.contains (holds : Holds map entries) (key : K) :
    map.contains key = entries.any fun entry => entry.1 == key := by
  rw [contains_eq, holds.get?, Option.isSome_map, List.isSome_find?]

omit [Hashable K] [LawfulHashable K] in
theorem place_apart {key : K} {value : V} (apart : Apart (entries.map Prod.fst)) :
    Apart ((place (· == ·) key value entries).map Prod.fst) := by
  rw [place_keys]
  split
  next met => exact apart
  next new =>
    refine List.pairwise_append.mpr ⟨apart, List.pairwise_singleton _ _, ?_⟩
    intro other member last isKey
    obtain ⟨entry, inside, rfl⟩ := List.mem_map.mp member
    rw [List.mem_singleton.mp isKey]
    simpa using fun met => new (List.any_eq_true.mpr ⟨entry, inside, met⟩)

theorem Holds.set (holds : Holds map entries) (key : K) (value : V) :
    Holds (map.set key value) (place (· == ·) key value entries) := by
  refine ⟨?keys, ?buckets, place_apart holds.apart⟩
  case keys =>
    have row := holds.keys
    rw [place_keys, OrderedMap.set, OrderedMap.keys, holds.contains]
    split <;> simp_all [OrderedMap.keys]
  case buckets =>
    intro code
    have respects (other : K) (met : (other == key) = true) :
        (hash other == code) = (hash key == code) := by rw [hash_eq met]
    rw [OrderedMap.set, bucket_insert, place_filter (hash · == code) respects, ← holds.buckets]
    split
    next own => rw [eq_of_beq own]
    next other => rfl

theorem Holds.erase (holds : Holds map entries) (key : K) :
    Holds (map.erase key) (entries.filter fun entry => !(entry.1 == key)) := by
  rw [OrderedMap.erase]
  split
  next met =>
    refine ⟨?keys, ?buckets, ?apart⟩
    case keys =>
      have row := holds.keys
      simp only [OrderedMap.keys, Array.toList_filter] at row ⊢
      rw [row, List.filter_map]
      rfl
    case buckets =>
      intro code
      rw [bucket_insert, List.filter_filter]
      split
      next own =>
        rw [holds.buckets, List.filter_filter, eq_of_beq own]
        exact List.filter_congr fun entry _ => Bool.and_comm _ _
      next other =>
        rw [← OrderedMap.bucket, holds.buckets]
        refine List.filter_congr fun entry _ => ?_
        by_cases met : entry.1 == key
        · simp [hash_eq met, other]
        · simp [met]
    case apart =>
      exact holds.apart.sublist (List.filter_sublist.map Prod.fst)
  next new =>
    have kept : entries.filter (fun entry => !(entry.1 == key)) = entries := by
      rw [holds.contains] at new
      simpa [List.filter_eq_self] using new
    rw [kept]
    exact holds

omit [Hashable K] [LawfulHashable K] in
theorem find_of_apart [ReflBEq K] (apart : Apart (entries.map Prod.fst)) {entry : K × V}
    (member : entry ∈ entries) : (entries.find? fun other => other.1 == entry.1) = some entry := by
  induction entries with
  | nil => cases member
  | cons first later ih =>
      obtain ⟨different, others⟩ := List.pairwise_cons.mp apart
      rcases List.mem_cons.mp member with rfl | inLater
      · simp
      · have passed : (first.1 == entry.1) = false :=
          different entry.1 (List.mem_map_of_mem inLater)
        rw [List.find?_cons, passed]
        exact ih others inLater

theorem Holds.pairs [ReflBEq K] (holds : Holds map entries) : map.pairs = entries := by
  have found (entry : K × V) (member : entry ∈ entries) :
      ((map.get? entry.1).map fun value => (entry.1, value)) = some entry := by
    rw [holds.get?, find_of_apart holds.apart member]
    rfl
  rw [OrderedMap.pairs, holds.keys, List.filterMap_map]
  calc entries.filterMap _ = entries.filterMap some := List.filterMap_congr found
    _ = entries := List.filterMap_some

/-! Setting a key, whatever the map. -/

omit [LawfulHashable K] in
theorem keys_set (map : OrderedMap K V) (key : K) (value : V) :
    (map.set key value).keys =
      if (map.get? key).isSome then map.keys else map.keys ++ [key] := by
  rw [OrderedMap.set, OrderedMap.keys, contains_eq]
  split
  next met => rfl
  next new => exact Array.toList_push

omit [Hashable K] [LawfulHashable K] in
theorem find_place [EquivBEq K] (key : K) (value : V) (entries : List (K × V)) (other : K) :
    ((place (· == ·) key value entries).find? fun entry => entry.1 == other).map Prod.snd =
      if key == other then some value
      else (entries.find? fun entry => entry.1 == other).map Prod.snd := by
  induction entries with
  | nil => by_cases same : key == other <;> simp [place, same]
  | cons entry later ih =>
      obtain ⟨first, held⟩ := entry
      by_cases met : first == key
      · have alike : (first == other) = (key == other) := BEq.congr_left met
        by_cases same : key == other <;> simp [place, met, alike, same]
      · by_cases found : first == other
        · have differs : (key == other) = false := by
            rw [← BEq.congr_right found, BEq.comm]
            simpa using met
          simp [place, met, found, differs]
        · simpa [place, met, found] using ih

theorem get?_set [EquivBEq K] (map : OrderedMap K V) (key : K) (value : V) (other : K) :
    (map.set key value).get? other = if key == other then some value else map.get? other := by
  rw [OrderedMap.get?, OrderedMap.set, bucket_insert]
  split
  next filed =>
    rw [find_place, eq_of_beq filed]
    rfl
  next apart =>
    have differs : (key == other) = false := by
      by_contra same
      exact apart (by simp [hash_eq (Bool.not_eq_false _ ▸ same)])
    rw [differs]
    rfl

end StackLisp.OrderedMap
