import UwbApps.Backhaul.Sensors

/-!
# The sensors of a tag

`sensor_timer_ev_cb` reads one sensor of each type on a list, and `rtdoa_backhaul_sensor_data_cb`
puts what they deliver into the package.  The list ends at the first `SENSOR_TYPE_NONE`, which the
rate limit puts in front of the compass.

The loop of the callback moves on when a read succeeds or when there is no sensor of the type.  A
read that fails is made again, for as long as it fails: `triesEachOnce_iff`.
-/

set_option autoImplicit false

namespace UwbApps.RtdoaTag

open Backhaul

variable {S : Type*}

/-- `sensor_types`, with or without the compass and the pressure. -/
def sensorTypes (mpDue : Bool) : List SensorType :=
  [.accelerometer, .gyroscope, if mpDue then .magneticField else .none, .pressure, .none]

/-- What a call of `sensor_read` does: its result, and the calls of the listener on the way. -/
structure SensorRead where
  rc : ℤ
  calls : List (SensorData × SensorType)

/-- The sensor data of the package after a read. -/
def SensorRead.apply (undef : CFloat → ℤ) (d : RtdoabhSensorData) (r : SensorRead) :
    RtdoabhSensorData :=
  r.calls.foldl (fun d call ↦ rtdoaBackhaulSensorDataCb undef d call.1 call.2) d

/-- The sensors and the platform, as the loop finds them. -/
structure SensorEnv (S : Type*) where
  undef : CFloat → ℤ
  /-- `sensor_mgr_find_next_bytype`. -/
  sensorMgrFindNextBytype : SensorType → Option S
  /-- The calls of `sensor_read`, in the order in which they are made. -/
  sensorRead : ℕ → SensorRead

/-- The loop, for at most `fuel` passes: the types it tries, one for each pass, and the sensor
data when it ends.  `i` is the position in `types` and `n` the number of reads before. -/
def sensorLoop (E : SensorEnv S) (types : List SensorType) :
    ℕ → ℕ → ℕ → RtdoabhSensorData → Option (List SensorType × RtdoabhSensorData)
  | 0, _, _, _ => none
  | fuel + 1, i, n, d =>
    types[i]?.bind fun type ↦
      if type = .none then some ([], d)
      else
        match E.sensorMgrFindNextBytype type with
        | none =>
          (sensorLoop E types fuel (i + 1) n d).map fun out ↦ (type :: out.1, out.2)
        | some _ =>
          let d := (E.sensorRead n).apply E.undef d
          -- `if (rc) continue` goes back to the test without `i++`
          (sensorLoop E types fuel (if (E.sensorRead n).rc ≠ 0 then i else i + 1) (n + 1) d).map
            fun out ↦ (type :: out.1, out.2)

/-- The loop of `sensor_timer_ev_cb` ends, having tried each type at most once. -/
def TriesEachOnce (E : SensorEnv S) (types : List SensorType) (d : RtdoabhSensorData) : Prop :=
  ∃ fuel out, sensorLoop E types fuel 0 0 d = some out ∧ out.1.Nodup

/-- The types in front of the end of the list. -/
def listed (types : List SensorType) : List SensorType := types.takeWhile (· ≠ .none)

/-- The types for which there is a sensor to read. -/
def readable (E : SensorEnv S) (types : List SensorType) : List SensorType :=
  (listed types).filter fun type ↦ (E.sensorMgrFindNextBytype type).isSome

/-! ## One pass -/

/-- What a pass does at a type of the list. -/
theorem sensorLoop_listed {E : SensorEnv S} {types : List SensorType} {type : SensorType} {i : ℕ}
    (hi : types[i]? = some type) (htype : type ≠ .none) (fuel n : ℕ) (d : RtdoabhSensorData) :
    ∃ i' n' d', sensorLoop E types (fuel + 1) i n d =
        (sensorLoop E types fuel i' n' d').map (fun out ↦ (type :: out.1, out.2)) ∧
      ((E.sensorMgrFindNextBytype type = none ∧ i' = i + 1 ∧ n' = n) ∨
        ((E.sensorMgrFindNextBytype type).isSome ∧ n' = n + 1 ∧
          i' = if (E.sensorRead n).rc ≠ 0 then i else i + 1)) := by
  simp only [sensorLoop, hi, Option.bind_some, if_neg htype]
  cases hfind : E.sensorMgrFindNextBytype type with
  | none => exact ⟨i + 1, n, d, rfl, Or.inl ⟨rfl, rfl, rfl⟩⟩
  | some s => exact ⟨_, n + 1, _, rfl, Or.inr ⟨rfl, rfl, rfl⟩⟩

/-- A loop that ends has tried the type it stands at. -/
theorem sensorLoop_eq_some_listed {E : SensorEnv S} {types : List SensorType} {type : SensorType}
    {i : ℕ} (hi : types[i]? = some type) (htype : type ≠ .none) {fuel n : ℕ}
    {d : RtdoabhSensorData} {out : List SensorType × RtdoabhSensorData}
    (h : sensorLoop E types fuel i n d = some out) : ∃ rest, out.1 = type :: rest := by
  cases fuel with
  | zero => cases h
  | succ fuel =>
    obtain ⟨i', n', d', heq, -⟩ := sensorLoop_listed hi htype fuel n d
    rw [heq] at h
    obtain ⟨out', -, rfl⟩ := Option.map_eq_some_iff.mp h
    exact ⟨out'.1, rfl⟩

/-! ## The list -/

theorem getElem?_listed {types : List SensorType} {i : ℕ} (hi : i < (listed types).length) :
    types[i]? = some (listed types)[i] ∧ (listed types)[i] ≠ .none := by
  constructor
  · have hlisted : listed types <+: types := List.takeWhile_prefix _
    rw [hlisted.getElem hi]
    exact List.getElem?_eq_getElem _
  · have hall : (listed types).all (· ≠ .none) := List.all_takeWhile
    simpa using List.all_eq_true.mp hall _ (List.getElem_mem hi)

/-- The first type behind the listed ones is the end mark. -/
theorem getElem?_length_listed {types : List SensorType} (hend : .none ∈ types) :
    types[(listed types).length]? = some .none := by
  induction types with
  | nil => simp at hend
  | cons type types ih =>
    by_cases htype : type = .none
    · simp [listed, htype]
    · have hrest := ih ((List.mem_cons.mp hend).resolve_left (Ne.symm htype))
      have hcons : listed (type :: types) = type :: listed types := by simp [listed, htype]
      rw [hcons, List.length_cons, List.getElem?_cons_succ, hrest]

/-! ## The loop -/

/-- The reads still ahead at position `i`, with `n` made before, all succeed. -/
def ReadsSucceed (E : SensorEnv S) (types : List SensorType) (i n : ℕ) : Prop :=
  ∀ k < (((listed types).drop i).filter fun type ↦ (E.sensorMgrFindNextBytype type).isSome).length,
    (E.sensorRead (n + k)).rc = 0

theorem readsSucceed_of_none {E : SensorEnv S} {types : List SensorType} {i n : ℕ}
    (hi : i < (listed types).length)
    (hfind : E.sensorMgrFindNextBytype (listed types)[i] = none) :
    ReadsSucceed E types i n ↔ ReadsSucceed E types (i + 1) n := by
  rw [ReadsSucceed, ReadsSucceed, List.drop_eq_getElem_cons hi, List.filter_cons, hfind]
  rfl

theorem readsSucceed_of_isSome {E : SensorEnv S} {types : List SensorType} {i n : ℕ}
    (hi : i < (listed types).length)
    (hfind : (E.sensorMgrFindNextBytype (listed types)[i]).isSome) :
    ReadsSucceed E types i n ↔
      (E.sensorRead n).rc = 0 ∧ ReadsSucceed E types (i + 1) (n + 1) := by
  rw [ReadsSucceed, ReadsSucceed, List.drop_eq_getElem_cons hi, List.filter_cons, if_pos hfind,
    List.length_cons]
  constructor
  · intro h
    refine ⟨h 0 (Nat.succ_pos _), fun k hk ↦ ?_⟩
    rw [Nat.add_right_comm, Nat.add_assoc]
    exact h (k + 1) (Nat.succ_lt_succ hk)
  · rintro ⟨hfirst, hrest⟩ k hk
    cases k with
    | zero => exact hfirst
    | succ k =>
      rw [← Nat.add_assoc, Nat.add_right_comm]
      exact hrest k (Nat.lt_of_succ_lt_succ hk)

/-- When all reads succeed the loop goes through the list. -/
theorem sensorLoop_of_readsSucceed {E : SensorEnv S} {types : List SensorType}
    (hend : .none ∈ types) {m i : ℕ} (hm : i + m = (listed types).length) {n : ℕ}
    (hreads : ReadsSucceed E types i n) (d : RtdoabhSensorData) :
    ∃ d', sensorLoop E types (m + 1) i n d = some ((listed types).drop i, d') := by
  induction m generalizing i n d with
  | zero =>
    obtain rfl : i = (listed types).length := by omega
    refine ⟨d, ?_⟩
    rw [sensorLoop, getElem?_length_listed hend, Option.bind_some, if_pos rfl, List.drop_length]
  | succ m ih =>
    have hi : i < (listed types).length := by omega
    obtain ⟨hget, hne⟩ := getElem?_listed hi
    obtain ⟨i', n', d₁, heq, hpass⟩ := sensorLoop_listed (E := E) hget hne (m + 1) n d
    have hnext : i' = i + 1 ∧ ReadsSucceed E types (i + 1) n' := by
      rcases hpass with ⟨hfind, hi', hn'⟩ | ⟨hfind, hn', hi'⟩
      · exact ⟨hi', hn' ▸ (readsSucceed_of_none hi hfind).mp hreads⟩
      · obtain ⟨hrc, hrest⟩ := (readsSucceed_of_isSome hi hfind).mp hreads
        exact ⟨by simpa [hrc] using hi', hn' ▸ hrest⟩
    obtain ⟨rfl, hreads'⟩ := hnext
    obtain ⟨d', hd'⟩ := ih (by omega) hreads' d₁
    refine ⟨d', ?_⟩
    rw [heq, hd', Option.map_some, List.drop_eq_getElem_cons hi]

/-- A loop that ends and tries no type twice has met no read that failed. -/
theorem readsSucceed_of_sensorLoop {E : SensorEnv S} {types : List SensorType} {fuel i n : ℕ}
    {d : RtdoabhSensorData} {out : List SensorType × RtdoabhSensorData}
    (h : sensorLoop E types fuel i n d = some out) (hnodup : out.1.Nodup) :
    ReadsSucceed E types i n := by
  induction fuel generalizing i n d out with
  | zero => cases h
  | succ fuel ih =>
    by_cases hi : i < (listed types).length
    · obtain ⟨hget, hne⟩ := getElem?_listed hi
      obtain ⟨i', n', d₁, heq, hpass⟩ := sensorLoop_listed (E := E) hget hne fuel n d
      rw [heq] at h
      obtain ⟨out', hout', rfl⟩ := Option.map_eq_some_iff.mp h
      obtain ⟨hfresh, hnodup⟩ := List.nodup_cons.mp hnodup
      rcases hpass with ⟨hfind, rfl, rfl⟩ | ⟨hfind, rfl, rfl⟩
      · exact (readsSucceed_of_none hi hfind).mpr (ih hout' hnodup)
      · by_cases hrc : (E.sensorRead n).rc = 0
        · rw [if_neg (not_not.mpr hrc)] at hout'
          exact (readsSucceed_of_isSome hi hfind).mpr ⟨hrc, ih hout' hnodup⟩
        · -- the next pass tries the same type
          rw [if_pos hrc] at hout'
          obtain ⟨rest, hrest⟩ := sensorLoop_eq_some_listed hget hne hout'
          exact absurd (hrest ▸ List.mem_cons_self) hfresh
    · intro k hk
      rw [List.drop_eq_nil_of_le (Nat.not_lt.mp hi)] at hk
      cases hk

/-- **When the loop is done with each type at once**: it ends, having tried each type at most once,
exactly when the reads it makes, one for each listed type that has a sensor, all succeed. -/
theorem triesEachOnce_iff (E : SensorEnv S) (mpDue : Bool) (d : RtdoabhSensorData) :
    TriesEachOnce E (sensorTypes mpDue) d ↔
      ∀ k < (readable E (sensorTypes mpDue)).length, (E.sensorRead k).rc = 0 := by
  have hreads : ReadsSucceed E (sensorTypes mpDue) 0 0 ↔
      ∀ k < (readable E (sensorTypes mpDue)).length, (E.sensorRead k).rc = 0 := by
    simp only [ReadsSucceed, readable, List.drop_zero, Nat.zero_add]
  rw [← hreads]
  constructor
  · rintro ⟨fuel, out, hout, hnodup⟩
    exact readsSucceed_of_sensorLoop hout hnodup
  · intro h
    have hend : .none ∈ sensorTypes mpDue := by simp [sensorTypes]
    obtain ⟨d', hd'⟩ := sensorLoop_of_readsSucceed hend (Nat.zero_add _) h d
    have hnodup : (listed (sensorTypes mpDue)).Nodup := by
      cases mpDue <;> decide
    exact ⟨_, _, hd', hnodup⟩

/-- A board with a sensor of each type, none of which answers. -/
def deafBoard : SensorEnv Unit where
  undef _ := 0
  sensorMgrFindNextBytype _ := some ()
  sensorRead _ := ⟨-1, []⟩

/-- Its first read is made for ever. -/
theorem not_triesEachOnce_deafBoard : ¬ TriesEachOnce deafBoard (sensorTypes true) .zero := by
  rintro ⟨fuel, out, hout, hnodup⟩
  exact absurd (readsSucceed_of_sensorLoop hout hnodup 0 (by decide)) (by decide)

end UwbApps.RtdoaTag
