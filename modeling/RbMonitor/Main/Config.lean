import RbMonitor.Monitor.Parse

/-!
This module contains the settings of the main program and how they are read from the configuration.
-/

namespace RbMonitor

open CString

/-- `rd_kafka_conf_res_t`. -/
inductive RdKafkaConfRes where
  | unknown
  | invalid
  | ok
deriving DecidableEq

/-- What librdkafka answers to a property and its value. -/
structure RdKafka where
  topicConfSet : CStr → Option CStr → RdKafkaConfRes
  confSet : CStr → Option CStr → RdKafkaConfRes

inductive RdKafkaCall where
  | topicConfSet (name : CStr) (value : Option CStr)
  | confSet (name : CStr) (value : Option CStr)
deriving DecidableEq

/-- What the configuration is read with: `HAVE_RBHTTP` is a choice of the build. -/
structure ConfigEnv where
  jsonC : JsonC
  rdKafka : RdKafka
  haveRbhttp : Bool

inductive RbHttpMode where
  | normal
  | chunked
deriving DecidableEq

/-- The settings in `struct _worker_info`. -/
structure WorkerInfo where
  timeout : Int := 0
  maxSnmpFails : Int := 0
  maxKafkaFails : Option CStr := none
  kafkaBroker : Option CStr := none
  kafkaTopic : Option CStr := none
  kafkaTimeout : Int := 0
  sleepWorker : Int := 0
  httpEndpoint : Option CStr := none
  httpMode : Option RbHttpMode := none
  httpInsecure : Int := 0
  httpMaxTotalConnections : Int := 0
  httpTimeout : Int := 0
  httpConnttimeout : Int := 0
  httpVerbose : Int := 0
  rbHttpMaxMessages : Int := 0
  /-- What was asked of librdkafka for `rk_conf` and `rkt_conf`. -/
  rdKafkaCalls : List RdKafkaCall := []

/-- The settings in `struct _main_info`. -/
structure MainInfo where
  sleepMain : Nat := 0
  threads : Nat := 0

structure Config where
  severity : Int := 0
  worker : WorkerInfo := {}
  main : MainInfo := {}

def CONFIG_RDKAFKA_KEY : CStr := "rdkafka.".toList

def parseRdkafkaKeyvalConfig (rdKafka : RdKafka) (key : CStr) (value : Option CStr)
    : List RdKafkaCall :=
  let name := key.drop CONFIG_RDKAFKA_KEY.length
  let topic := "topic.".toList
  let (res, calls) :=
    if topic.isPrefixOf name then
      let name := name.drop topic.length
      (rdKafka.topicConfSet name value, [RdKafkaCall.topicConfSet name value])
    else
      (.unknown, [])
  if res = .unknown then calls ++ [.confSet name value] else calls

def parseRdkafkaConfigJson (env : ConfigEnv) (info : WorkerInfo) (key : CStr) (jvalue : Json)
    : WorkerInfo :=
  let value := jsonObjectGetString env.jsonC jvalue
  { info with rdKafkaCalls := info.rdKafkaCalls ++ parseRdkafkaKeyvalConfig env.rdKafka key value }

/-- `rb_http_mode`, where an unknown mode changes nothing. -/
def parseRbHttpMode (mode : Option CStr) (info : WorkerInfo) : WorkerInfo :=
  if mode = some "normal".toList then
    { info with httpMode := some .normal }
  else if mode = some "deflated".toList then
    { info with httpMode := some .chunked }
  else
    info

namespace parseJsonConfig

/-- The keys of `struct _worker_info`, in the order in which they are compared. -/
def worker (env : ConfigEnv) (info : WorkerInfo) (key : CStr) (val : Json) : WorkerInfo :=
  let int := env.jsonC.getInt64 val
  let str := jsonObjectGetString env.jsonC val
  if key = "timeout".toList then
    { info with timeout := int }
  else if key = "max_snmp_fails".toList then
    { info with maxSnmpFails := int }
  else if key = "max_kafka_fails".toList then
    { info with maxKafkaFails := str }
  else if key = "kafka_broker".toList then
    { info with kafkaBroker := str }
  else if key = "kafka_topic".toList then
    { info with kafkaTopic := str }
  else if key = "kafka_timeout".toList then
    { info with kafkaTimeout := int }
  else if key = "sleep_worker".toList then
    { info with sleepWorker := int }
  else if key = "http_endpoint".toList then
    if env.haveRbhttp then { info with httpEndpoint := str } else info
  else if key = CONFIG_RDKAFKA_KEY then
    parseRdkafkaConfigJson env info key val
  else if key = "http_max_total_connections".toList then
    { info with httpMaxTotalConnections := int }
  else if key = "http_timeout".toList then
    { info with httpTimeout := int }
  else if key = "http_connttimeout".toList then
    { info with httpConnttimeout := int }
  else if key = "http_verbose".toList then
    { info with httpVerbose := int }
  else if key = "http_insecure".toList then
    if env.haveRbhttp then { info with httpInsecure := int } else info
  else if key = "rb_http_max_messages".toList then
    { info with rbHttpMaxMessages := int }
  else if key = "rb_http_mode".toList then
    if env.haveRbhttp then parseRbHttpMode str info else info
  else
    info

/-- The body of the loop over the keys. -/
def key (env : ConfigEnv) (config : Config) (key : CStr) (val : Json) : Config :=
  let int := env.jsonC.getInt64 val
  if key = "debug".toList then
    { config with severity := int }
  else if key = "stdout".toList ∨ key = "syslog".toList then
    config
  else if key = "threads".toList then
    if int ≤ 0 then config else { config with main.threads := int.toNat }
  else if key = "sleep_main".toList then
    if int ≤ 0 then config else { config with main.sleepMain := int.toNat }
  else
    { config with worker := worker env config.worker key val }

end parseJsonConfig

/-- `parse_json_config`: what is no object has no keys to go over. -/
def parseJsonConfig (env : ConfigEnv) (config : Json) (info : Config) : CM Config :=
  match config with
  | .object members => .ok (members.foldl (fun info e => parseJsonConfig.key env info e.1 e.2) info)
  | _ => .error .nullPointer

section

variable {env : ConfigEnv}

/-- A number is accepted if it is positive. -/
def acceptPositive (jsonC : JsonC) (val : Json) (old : Nat) : Nat :=
  if jsonC.getInt64 val ≤ 0 then old else (jsonC.getInt64 val).toNat

theorem key_threads (info : Config) (val : Json)
    : parseJsonConfig.key env info "threads".toList val =
        { info with main.threads := acceptPositive env.jsonC val info.main.threads } := by
  unfold parseJsonConfig.key acceptPositive
  simp
  split <;> rfl

theorem key_sleepMain (info : Config) (val : Json)
    : parseJsonConfig.key env info "sleep_main".toList val =
        { info with main.sleepMain := acceptPositive env.jsonC val info.main.sleepMain } := by
  unfold parseJsonConfig.key acceptPositive
  simp
  split <;> rfl

theorem main_key_of_ne (info : Config) {key : CStr} (val : Json) (hthreads : key ≠ "threads".toList)
    (hsleep : key ≠ "sleep_main".toList)
    : (parseJsonConfig.key env info key val).main = info.main := by
  unfold parseJsonConfig.key
  simp only [hthreads, hsleep, if_false]
  split
  . rfl
  . split <;> rfl

theorem sleepMain_parseJsonConfig {members : LinkHash CStr Json}
    (hnodup : (LinkHash.keys members).Nodup) {info info' : Config}
    (h : parseJsonConfig env (.object members) info = .ok info')
    : info'.main.sleepMain =
        (members.lookup "sleep_main".toList).elim info.main.sleepMain
          (acceptPositive env.jsonC · info.main.sleepMain) := by
  simp only [parseJsonConfig, Except.ok.injEq] at h
  rw [← h]
  apply LinkHash.get_foldl_eq_lookup (fun info : Config => info.main.sleepMain) hnodup
  . intro info val
    rw [key_sleepMain]
  . intro info e hkey
    by_cases hthreads : e.1 = "threads".toList
    . rw [hthreads, key_threads]
    . rw [main_key_of_ne info e.2 hthreads hkey]

end

end RbMonitor
