import CameraBoard.Board
import CameraBoard.BoardRuns
import CameraBoard.CreateDirectory
import CameraBoard.DisplayHandles
import CameraBoard.Esp
import CameraBoard.Framebuffer
import CameraBoard.General.BufferedStream
import CameraBoard.General.Bytes
import CameraBoard.General.FileTree
import CameraBoard.General.Interleaving
import CameraBoard.General.Linearization
import CameraBoard.General.Lines
import CameraBoard.General.Memory
import CameraBoard.General.Paths
import CameraBoard.General.Raster
import CameraBoard.General.Rect
import CameraBoard.General.Ring
import CameraBoard.General.SerialBus
import CameraBoard.General.StepRun
import CameraBoard.I2cDevice
import CameraBoard.I2cLink
import CameraBoard.I2cMaster
import CameraBoard.I2sReceive
import CameraBoard.I2sRecording
import CameraBoard.LcdDraw
import CameraBoard.LcdTaskRuns
import CameraBoard.LcdTasks
import CameraBoard.LcdTouch
import CameraBoard.LcdTransferRuns
import CameraBoard.LcdTransfers
import CameraBoard.LvglDrawBuffer
import CameraBoard.LvglInvalidAreas
import CameraBoard.LvglJoinAreas
import CameraBoard.LvglPanel
import CameraBoard.LvglRefresh
import CameraBoard.LvglScreen
import CameraBoard.PanelOrientation
import CameraBoard.Pca9557
import CameraBoard.Pca9557Tasks
import CameraBoard.Qmi8658
import CameraBoard.RecordLoop
import CameraBoard.RecordWav
import CameraBoard.SdCard
import CameraBoard.SdLines
import CameraBoard.SdNames
import CameraBoard.SdWriteData
import CameraBoard.St7789Panel
import CameraBoard.TouchPaths
import CameraBoard.WavHeader
