import Lpc1788Libraries.Support.BoundedProgram
import Lpc1788Libraries.DataManager.LogFsTypes
import Lpc1788Libraries.DataManager.LogFsModel
import Lpc1788Libraries.DataManager.At45d
import Lpc1788Libraries.DataManager.LogFsPages
import Lpc1788Libraries.DataManager.LogFsScan
import Lpc1788Libraries.DataManager.LogFsFrame
import Lpc1788Libraries.DataManager.LogFsRun
import Lpc1788Libraries.DataManager.LogFsReclaim
import Lpc1788Libraries.WiFi.Buffer
import Lpc1788Libraries.WiFi.Esp8266
import Lpc1788Libraries.WiFi.EspSession
import Lpc1788Libraries.WiFi.EspClientConnection
import Lpc1788Libraries.WiFi.EspReception
import Lpc1788Libraries.WiFi.EspPacket
import Lpc1788Libraries.WiFi.EspPacketRun
import Lpc1788Libraries.DataManager.LogFsOpenFile
import Lpc1788Libraries.DataManager.LogFsBounds
import Lpc1788Libraries.DataManager.LogFsHeaders
import Lpc1788Libraries.DataManager.LogFsSearch
import Lpc1788Libraries.DataManager.LogFsReaders
import Lpc1788Libraries.DataManager.LogFsTermination
import Lpc1788Libraries.Enc28j60.Chip
import Lpc1788Libraries.Enc28j60.Receive
import Lpc1788Libraries.Enc28j60.ReceiveRun
import Lpc1788Libraries.Nmea.Delivery
import Lpc1788Libraries.WiFi.BufferFifo
import Lpc1788Libraries.Cli.CliEditor
import Lpc1788Libraries.Cli.CliHistoryRing
import Lpc1788Libraries.Cli.CliIndices
import Lpc1788Libraries.Cli.CliRecall
import Lpc1788Libraries.Cli.CliAutocomplete
import Lpc1788Libraries.Cli.CliTab
import Lpc1788Libraries.Support.Confirmation
import Lpc1788Libraries.WiFi.EspSend
import Lpc1788Libraries.WiFi.EspFind
import Lpc1788Libraries.WiFi.EspSendRun
import Lpc1788Libraries.Rtc.CalendarRoundTrip
import Lpc1788Libraries.Max7219.Run
import Lpc1788Libraries.Oled.Coherence
import Lpc1788Libraries.Enc28j60.BankRun
import Lpc1788Libraries.Bluetooth.Pairing
import Lpc1788Libraries.WiFi.BufferString
import Lpc1788Libraries.WiFi.MemMem
import Lpc1788Libraries.DataManager.At45dWrPage
import Lpc1788Libraries.DataManager.LogFsAttr
import Lpc1788Libraries.DataManager.LogFsGeometry
import Lpc1788Libraries.Cli.CliHelpRun
import Lpc1788Libraries.Cli.CliNumbers
import Lpc1788Libraries.DataManager.LogFsDeleteFile
import Lpc1788Libraries.DataManager.LogFsOpening
import Lpc1788Libraries.WiFi.BufferElement
import Lpc1788Libraries.WiFi.EspEscape
import Lpc1788Libraries.Rtc.DateFormat
import Lpc1788Libraries.Rtc.Alarms
import Lpc1788Libraries.Touch.SampleFilter
import Lpc1788Libraries.Touch.Calibration
import Lpc1788Libraries.Nmea.RmcDecoding
import Lpc1788Libraries.TextLcd.TextOutput
import Lpc1788Libraries.TextLcd.NumberOutput
import Lpc1788Libraries.Gfx.Line
import Lpc1788Libraries.Gfx.Rectangle
import Lpc1788Libraries.Oled.LineChain
import Lpc1788Libraries.Oled.CircleScreen
import Lpc1788Libraries.Oled.Glyphs
import Lpc1788Libraries.Monitor.Printing
import Lpc1788Libraries.DataManager.LogFsRolling
import Lpc1788Libraries.DataManager.LogFsCrc
import Lpc1788Libraries.Support.RecordLog
import Lpc1788Libraries.DataManager.LogFsReopen
import Lpc1788Libraries.DataManager.LogFsReading
import Lpc1788Libraries.DataManager.LogFsStore
import Lpc1788Libraries.DataManager.LogFsStoreCalls
import Lpc1788Libraries.DataManager.LogFsStoreRuns
import Lpc1788Libraries.DataManager.LogFsReadBack
import Lpc1788Libraries.DataManager.LogFsRestart
import Lpc1788Libraries.DataManager.LogFsSpace
import Lpc1788Libraries.Cli.CliTerminal
import Lpc1788Libraries.TextLcd.NibbleBus
import Lpc1788Libraries.TextLcd.Panel
import Lpc1788Libraries.Support.TerminalRow
import Lpc1788Libraries.Enc28j60.Traffic
import Lpc1788Libraries.Cli.CliShell
