import Timeshift.Series
import Timeshift.Settings
import Timeshift.Wire.Form

/-! # How schedules, programs, rules and the rest are written -/

namespace Timeshift.Wire

open Form

def required (names : List String) : List Field := names.map fun name => { name }

def optionals (names : List String) : List Field :=
  names.map fun name => { name, isOptional := true }

/-! ## Names and bands -/

def recordingState : Form RecordingState := named RecordingState.name RecordingState.ofName?

def ruleState : Form RuleState := named RuleState.name RuleState.ofName?

def channelOption : Form ChannelOption := named ChannelOption.name ChannelOption.ofName?

def episodePriority : Form EpisodePriority :=
  checked signed EpisodePriority.ofPriority? EpisodePriority.value

def seriesPriority : Form SeriesPriority :=
  checked signed SeriesPriority.ofPriority? SeriesPriority.value

/-! ## Time and channels -/

def timeRange : RecordForm TimeRange where
  fields := required ["start_ms", "end_ms"]
  write r := [signed.write r.starts, signed.write r.ends]
  build?
    | [a, b] => return { starts := ← signed.read? a, ends := ← signed.read? b }
    | _ => none

def channel : RecordForm Channel where
  fields := required ["id", "input_id", "display_name"] ++ optionals ["display_number"]
  write c :=
    [signed.write c.id, text.write c.inputId, text.write c.displayName,
      text.optional.write c.displayNumber]
  build?
    | [a, b, c, d] => return {
        id := ← signed.read? a
        inputId := ← text.read? b
        displayName := ← text.read? c
        displayNumber := ← text.optional.read? d }
    | _ => none

def input : RecordForm Input where
  fields := required ["id", "tuner_count", "can_record"]
  write i := [text.write i.id, unsigned.write i.tunerCount, flag.write i.canRecord]
  build?
    | [a, b, c] => return {
        id := ← text.read? a
        tunerCount := ← unsigned.read? b
        canRecord := ← flag.read? c }
    | _ => none

/-! ## Programs and recordings -/

def program : RecordForm Program where
  fields := required ["id", "channel_id"] ++
    optionals ["series_id", "title", "episode_title", "season_number", "episode_number",
      "description", "poster_uri", "thumbnail_uri"] ++
    required ["start_ms", "end_ms", "recording_prohibited"]
  write p :=
    [signed.write p.id, signed.write p.channelId] ++
    [p.seriesKey, p.title, p.episodeTitle, p.season, p.episode, p.description, p.poster,
      p.thumbnail].map text.optional.write ++
    [signed.write p.starts, signed.write p.ends, flag.write p.prohibited]
  build?
    | [a, b, c, d, e, f, g, h, i, j, k, l, m] => return {
        id := ← signed.read? a
        channelId := ← signed.read? b
        seriesKey := ← text.optional.read? c
        title := ← text.optional.read? d
        episodeTitle := ← text.optional.read? e
        season := ← text.optional.read? f
        episode := ← text.optional.read? g
        description := ← text.optional.read? h
        poster := ← text.optional.read? i
        thumbnail := ← text.optional.read? j
        starts := ← signed.read? k
        ends := ← signed.read? l
        prohibited := ← flag.read? m }
    | _ => none

def recorded : RecordForm RecordedProgram where
  fields := required ["id", "input_id", "channel_id"] ++
    optionals ["program_id", "series_id", "title", "episode_title", "season_number",
      "episode_number"] ++
    required ["start_ms", "end_ms", "clipped"]
  write r :=
    [signed.write r.id, text.write r.inputId, signed.write r.channelId,
      signed.optional.write r.programId] ++
    [r.seriesKey, r.title, r.episodeTitle, r.season, r.episode].map text.optional.write ++
    [signed.write r.starts, signed.write r.ends, flag.write r.clipped]
  build?
    | [a, b, c, d, e, f, g, h, i, j, k, l] => return {
        id := ← signed.read? a
        inputId := ← text.read? b
        channelId := ← signed.read? c
        programId := ← signed.optional.read? d
        seriesKey := ← text.optional.read? e
        title := ← text.optional.read? f
        episodeTitle := ← text.optional.read? g
        season := ← text.optional.read? h
        episode := ← text.optional.read? i
        starts := ← signed.read? j
        ends := ← signed.read? k
        clipped := ← flag.read? l }
    | _ => none

/-! ## Schedules and rules -/

def schedule : RecordForm Schedule where
  fields := required ["id", "input_id", "channel_id"] ++ optionals ["program_id"] ++
    required ["start_ms", "end_ms", "priority", "state"] ++
    optionals ["series_recording_id", "title", "episode_title", "season_number",
      "episode_number", "description", "poster_uri", "thumbnail_uri"]
  write s :=
    [signed.write s.id, text.write s.inputId, signed.write s.channelId,
      signed.optional.write s.programId, signed.write s.starts, signed.write s.ends,
      signed.write s.priority, recordingState.write s.state, signed.optional.write s.ruleId] ++
    [s.title, s.episodeTitle, s.season, s.episode, s.description, s.poster, s.thumbnail].map
      text.optional.write
  build?
    | [a, b, c, d, e, f, g, h, i, j, k, l, m, n, o, p] => return {
        id := ← signed.read? a
        inputId := ← text.read? b
        channelId := ← signed.read? c
        programId := ← signed.optional.read? d
        starts := ← signed.read? e
        ends := ← signed.read? f
        priority := ← signed.read? g
        state := ← recordingState.read? h
        ruleId := ← signed.optional.read? i
        title := ← text.optional.read? j
        episodeTitle := ← text.optional.read? k
        season := ← text.optional.read? l
        episode := ← text.optional.read? m
        description := ← text.optional.read? n
        poster := ← text.optional.read? o
        thumbnail := ← text.optional.read? p }
    | _ => none

def seriesInfo : RecordForm SeriesInfo where
  fields := required ["series_id"] ++
    optionals ["title", "description", "long_description"] ++ required ["genres"] ++
    optionals ["poster_uri", "photo_uri"]
  write i :=
    [text.write i.seriesKey, text.optional.write i.title, text.optional.write i.description,
      text.optional.write i.longDescription, text.listOf.write i.genres,
      text.optional.write i.poster, text.optional.write i.photo]
  build?
    | [a, b, c, d, e, f, g] => return {
        seriesKey := ← text.read? a
        title := ← text.optional.read? b
        description := ← text.optional.read? c
        longDescription := ← text.optional.read? d
        genres := ← text.listOf.read? e
        poster := ← text.optional.read? f
        photo := ← text.optional.read? g }
    | _ => none

def seriesRule : RecordForm SeriesRule where
  fields := required ["id", "series_id", "input_id", "channel_id", "channel_option", "priority",
      "state"] ++
    optionals ["title", "description", "long_description"] ++ required ["genres"] ++
    optionals ["poster_uri", "photo_uri"]
  write r :=
    [signed.write r.id, text.write r.seriesKey, text.write r.inputId, signed.write r.channelId,
      channelOption.write r.channelOption, seriesPriority.write r.priority,
      ruleState.write r.state, text.optional.write r.title, text.optional.write r.description,
      text.optional.write r.longDescription, text.listOf.write r.genres,
      text.optional.write r.poster, text.optional.write r.photo]
  build?
    | [a, b, c, d, e, f, g, h, i, j, k, l, m] => return {
        id := ← signed.read? a
        seriesKey := ← text.read? b
        inputId := ← text.read? c
        channelId := ← signed.read? d
        channelOption := ← channelOption.read? e
        priority := ← seriesPriority.read? f
        state := ← ruleState.read? g
        title := ← text.optional.read? h
        description := ← text.optional.read? i
        longDescription := ← text.optional.read? j
        genres := ← text.listOf.read? k
        poster := ← text.optional.read? l
        photo := ← text.optional.read? m }
    | _ => none

/-! ## Settings -/

def settings : RecordForm Settings where
  fields := required ["recording_early_start_offset_ms", "wake_before_start_ms",
      "mailbox_capacity", "event_channel_capacity", "send_timeout_ms"] ++
    optionals ["task_stop_timeout_ms"]
  write s :=
    [signed.write s.earlyStart, signed.write s.wakeBefore, unsigned.write s.mailboxCapacity,
      unsigned.write s.eventCapacity, unsigned.write s.sendTimeout,
      unsigned.optional.write s.stopTimeout]
  build?
    | [a, b, c, d, e, f] => return {
        earlyStart := ← signed.read? a
        wakeBefore := ← signed.read? b
        mailboxCapacity := ← unsigned.read? c
        eventCapacity := ← unsigned.read? d
        sendTimeout := ← unsigned.read? e
        stopTimeout := ← unsigned.optional.read? f }
    | _ => none

end Timeshift.Wire
