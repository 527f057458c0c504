import RbMonitor.Main.Config

/-!
This module contains which settings of the configuration reach librdkafka, and under which names.
-/

namespace RbMonitor

/-- What is asked for a property: one of the topics of the topic configuration, and of the global one
only if it is unknown there. -/
def forwarded (rdKafka : RdKafka) (name : CStr) (value : Option CStr) : List RdKafkaCall :=
  match name.dropPrefix? "topic.".toList with
  | none => [.confSet name value]
  | some topicName =>
    .topicConfSet topicName value ::
      if rdKafka.topicConfSet topicName value = .unknown then [.confSet name value] else []

/-- What a key of the configuration is meant to ask. -/
def settingCalls (env : ConfigEnv) (key : CStr) (val : Json) : List RdKafkaCall :=
  match key.dropPrefix? CONFIG_RDKAFKA_KEY with
  | none => []
  | some name => forwarded env.rdKafka name (jsonObjectGetString env.jsonC val)

/-- Every setting is asked once, and nothing else is. -/
def ForwardsSettings (env : ConfigEnv) (members : LinkHash CStr Json) (info : Config) : Prop :=
  ∃ info' calls, parseJsonConfig env (.object members) info = .ok info' ∧
    info'.worker.rdKafkaCalls = info.worker.rdKafkaCalls ++ calls ∧
    calls.Perm (members.flatMap fun e => settingCalls env e.1 e.2)

theorem dropPrefix?_eq (str start : CStr)
    : str.dropPrefix? start
        =
      if start.isPrefixOf str then some (str.drop start.length) else none := by
  split
  . next h =>
    rcases List.isPrefixOf_iff_prefix.mp h with ⟨rest, rfl⟩
    rw [List.drop_left]
    exact List.dropPrefix?_append_of_beq rest (beq_self_eq_true start)
  . next h =>
    cases hdrop : str.dropPrefix? start with
    | none => rfl
    | some rest =>
      rcases List.dropPrefix?_eq_some_iff.mp hdrop with ⟨start', rfl, hstart⟩
      rw [eq_of_beq hstart] at h
      exact absurd (List.isPrefixOf_iff_prefix.mpr (List.prefix_append start rest)) h

theorem parseRdkafkaKeyvalConfig_append (rdKafka : RdKafka) (name : CStr) (value : Option CStr)
    : parseRdkafkaKeyvalConfig rdKafka (CONFIG_RDKAFKA_KEY ++ name) value
        =
      forwarded rdKafka name value := by
  unfold parseRdkafkaKeyvalConfig forwarded
  rw [List.drop_left, dropPrefix?_eq]
  by_cases htopic : "topic.".toList.isPrefixOf name
  . simp only [htopic, if_true]
    split
    . rfl
    . rfl
  . simp only [htopic]
    rfl

theorem forwarded_ne_nil (rdKafka : RdKafka) (name : CStr) (value : Option CStr)
    : forwarded rdKafka name value ≠ [] := by
  unfold forwarded
  split
  . nofun
  . nofun

section

variable {env : ConfigEnv}

theorem settingCalls_append (name : CStr) (val : Json)
    : settingCalls env (CONFIG_RDKAFKA_KEY ++ name) val
        =
      forwarded env.rdKafka name (jsonObjectGetString env.jsonC val) := by
  unfold settingCalls
  rw [List.dropPrefix?_append_of_beq name (beq_self_eq_true CONFIG_RDKAFKA_KEY)]

theorem settingCalls_of_no_key {key : CStr} (h : ¬ CONFIG_RDKAFKA_KEY <+: key) (val : Json)
    : settingCalls env key val = [] := by
  unfold settingCalls
  rw [dropPrefix?_eq, if_neg]
  rw [List.isPrefixOf_iff_prefix]
  exact h

theorem rdKafkaCalls_parseRbHttpMode (mode : Option CStr) (info : WorkerInfo)
    : (parseRbHttpMode mode info).rdKafkaCalls = info.rdKafkaCalls := by
  unfold parseRbHttpMode
  split
  . rfl
  . split <;> rfl

/-- What a key asks of librdkafka. -/
def keyCalls (env : ConfigEnv) (key : CStr) (val : Json) : List RdKafkaCall :=
  if key = CONFIG_RDKAFKA_KEY then settingCalls env key val else []

theorem rdKafkaCalls_worker (info : WorkerInfo) (key : CStr) (val : Json)
    : (parseJsonConfig.worker env info key val).rdKafkaCalls
        =
      info.rdKafkaCalls ++ keyCalls env key val := by
  unfold keyCalls
  by_cases hkey : key = CONFIG_RDKAFKA_KEY
  . subst hkey
    have hcalls := @settingCalls_append env [] val
    have hparse := parseRdkafkaKeyvalConfig_append env.rdKafka [] (jsonObjectGetString env.jsonC val)
    rw [List.append_nil] at hcalls hparse
    rw [if_pos rfl, hcalls, ← hparse]
    rfl
  . rw [if_neg hkey, List.append_nil]
    unfold parseJsonConfig.worker
    simp only [hkey, if_false, apply_ite WorkerInfo.rdKafkaCalls, rdKafkaCalls_parseRbHttpMode,
      ite_self]

theorem rdKafkaCalls_key (info : Config) (key : CStr) (val : Json)
    : (parseJsonConfig.key env info key val).worker.rdKafkaCalls
        =
      info.worker.rdKafkaCalls ++ keyCalls env key val := by
  by_cases hkey : key = CONFIG_RDKAFKA_KEY
  . have hworker : (parseJsonConfig.key env info key val).worker
        = parseJsonConfig.worker env info.worker key val := by
      rw [hkey]
      rfl
    rw [hworker, rdKafkaCalls_worker]
  . unfold parseJsonConfig.key
    simp only [apply_ite Config.worker, apply_ite WorkerInfo.rdKafkaCalls, rdKafkaCalls_worker,
      keyCalls, hkey, if_false, List.append_nil, ite_self]

theorem rdKafkaCalls_foldl (members : LinkHash CStr Json) (info : Config)
    : (members.foldl (fun info e => parseJsonConfig.key env info e.1 e.2) info).worker.rdKafkaCalls
        =
      info.worker.rdKafkaCalls ++ members.flatMap fun e => keyCalls env e.1 e.2 := by
  induction members generalizing info with
  | nil => simp
  | cons e members ih =>
    rw [List.foldl_cons, ih, rdKafkaCalls_key, List.flatMap_cons, List.append_assoc]

theorem keyCalls_eq_settingCalls {key : CStr}
    (h : CONFIG_RDKAFKA_KEY <+: key → key = CONFIG_RDKAFKA_KEY) (val : Json)
    : keyCalls env key val = settingCalls env key val := by
  unfold keyCalls
  split
  . rfl
  . next hkey => rw [settingCalls_of_no_key fun hstart => hkey (h hstart)]

theorem length_keyCalls_le (key : CStr) (val : Json)
    : (keyCalls env key val).length ≤ (settingCalls env key val).length := by
  unfold keyCalls
  split
  . exact Nat.le_refl _
  . exact Nat.zero_le _

theorem length_keyCalls_lt {key : CStr} (hstart : CONFIG_RDKAFKA_KEY <+: key)
    (hkey : key ≠ CONFIG_RDKAFKA_KEY) (val : Json)
    : (keyCalls env key val).length < (settingCalls env key val).length := by
  unfold keyCalls
  rw [if_neg hkey]
  rcases hstart with ⟨name, rfl⟩
  rw [settingCalls_append]
  exact List.length_pos_iff.mpr (forwarded_ne_nil _ _ _)

theorem length_flatMap_keyCalls_le (members : LinkHash CStr Json)
    : (members.flatMap fun e => keyCalls env e.1 e.2).length
        ≤
      (members.flatMap fun e => settingCalls env e.1 e.2).length := by
  induction members with
  | nil => exact Nat.le_refl _
  | cons e members ih =>
    rw [List.flatMap_cons, List.flatMap_cons, List.length_append, List.length_append]
    exact Nat.add_le_add (length_keyCalls_le e.1 e.2) ih

theorem not_forwardsSettings_of_mem {members : LinkHash CStr Json} {e : CStr × Json}
    (he : e ∈ members) (hstart : CONFIG_RDKAFKA_KEY <+: e.1) (hkey : e.1 ≠ CONFIG_RDKAFKA_KEY)
    (info : Config)
    : ¬ ForwardsSettings env members info := by
  intro h
  rcases h with ⟨info', calls, hparse, hcalls, hperm⟩
  simp only [parseJsonConfig, Except.ok.injEq] at hparse
  rw [← hparse, rdKafkaCalls_foldl, List.append_cancel_left_eq] at hcalls
  have hlength := hperm.length_eq
  rw [← hcalls] at hlength
  rcases List.append_of_mem he with ⟨before, after, rfl⟩
  have hlt := @length_keyCalls_lt env _ hstart hkey e.2
  have hbefore := @length_flatMap_keyCalls_le env before
  have hafter := @length_flatMap_keyCalls_le env after
  simp only [List.flatMap_append, List.flatMap_cons, List.length_append] at hlength
  omega

/-- The settings are forwarded exactly when none has a name. -/
theorem forwardsSettings_iff {members : LinkHash CStr Json} {info : Config}
    : ForwardsSettings env members info
        ↔
      ∀ e ∈ members, CONFIG_RDKAFKA_KEY <+: e.1 → e.1 = CONFIG_RDKAFKA_KEY := by
  constructor
  . intro h e he hstart
    by_contra hkey
    exact not_forwardsSettings_of_mem he hstart hkey info h
  . intro h
    refine ⟨_, _, rfl, rdKafkaCalls_foldl members info, ?_⟩
    rw [List.flatMap_congr fun e he => keyCalls_eq_settingCalls (h e he) e.2]

end

/-- All properties are known, and none of them as one of the topics. -/
def globalEnv : ConfigEnv where
  jsonC := { toJsonString _ := [], getInt64 _ := 0 }
  rdKafka := { topicConfSet _ _ := .unknown, confSet _ _ := .ok }
  haveRbhttp := false

theorem not_forwardsSettings_keepalive
    : ¬ ForwardsSettings globalEnv
        [("rdkafka.socket.keepalive.enable".toList, .string "true".toList)] {} := by
  apply not_forwardsSettings_of_mem List.mem_cons_self
  . exact List.prefix_iff_eq_take.mpr (by decide)
  . decide

end RbMonitor
